import TreeCompare.Proofs.Scan.Rounds

/-!
# One turn of the scan's loop

A turn lists the first of the pending directories and reads its files. It comes as far as
the steps of the recursive walk can be done one after the other: it fails at the first
step that fails, and it is never over if it comes to a file whose reading is never over.
A turn that is taken is done with the steps of this directory alone.
-/
namespace TreeCompare

open Node (children)

namespace Scan

variable {fs : FileSystem} {root : Path}

/-- Whether a step of the walk is never over. -/
def Task.waits (fs : FileSystem) (root : Path) : Task → Bool
  | .list _ => false
  | .read names => fs.waits (root.join (.relative names))

end Scan

end TreeCompare
