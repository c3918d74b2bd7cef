import TreeCompare.Testing.Harness

/-!
# Planned test runs

A harness whose answers are written down beforehand: the listing, and which runs
fail, by their number or by the name of the test. Its state is the list of the
names it was asked to run. A failure planned for a number wins over one planned
for a name.
-/
namespace TreeCompare

structure Plan where
  listing : Except HarnessError String
  failAt : List (Nat × HarnessError)
  failNamed : List (String × HarnessError)

namespace Plan

/-- The failure planned for the run of a test as number `index`. -/
def failure? (p : Plan) (index : Nat) (name : String) : Option HarnessError :=
  match p.failAt.lookup index with
  | some e => some e
  | none => p.failNamed.lookup name

def harness (p : Plan) : Harness (List String) where
  list := fun asked => ⟨[], asked, p.listing⟩
  run := fun name asked =>
    ⟨[], asked ++ [name], match p.failure? asked.length name with
      | some e => .error e
      | none => .ok ()⟩

end Plan

end TreeCompare
