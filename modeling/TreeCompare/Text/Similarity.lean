/-!
# Similarity of words

The Jaro similarity, as an exact fraction: letters match if they are equal and
not too far apart, and it is the mean of the matched shares of both words and
of the share of matched letters in the same order.
-/
namespace TreeCompare.Similarity

/-- A fraction with a positive denominator. -/
structure Ratio where
  num : Nat
  den : Nat
deriving Repr

def Ratio.lt (a b : Ratio) : Bool := a.num * b.den < b.num * a.den

/-- The first place from `low` to `high` that holds `c` and is not used yet. -/
def place? (word : List Char) (used : List Nat) (c : Char) (low high : Nat) : Option Nat :=
  (List.range word.length).find? fun j =>
    low ≤ j && j ≤ high && word[j]? == some c && !used.contains j

/-- The letters of `a` that match, in order, and the places in `b` that they match. -/
def matching (range : Nat) (b : List Char) :
    (i : Nat) → (used : List Nat) → List Char → List Char × List Nat
  | _, used, [] => ([], used)
  | i, used, c :: rest =>
      match place? b used c (i - range) (i + range) with
      | none => matching range b (i + 1) used rest
      | some j =>
          let found := matching range b (i + 1) (j :: used) rest
          (c :: found.1, found.2)

/-- The similarity of two words, zero if only one of them is empty. -/
def jaro (a b : List Char) : Ratio :=
  if a.isEmpty && b.isEmpty then ⟨1, 1⟩
  else
    let found := matching (max a.length b.length / 2 - 1) b 0 [] a
    let inB := (List.range b.length).filterMap fun j =>
      if found.2.contains j then b[j]? else none
    let swapped := ((found.1.zip inB).filter fun p => p.1 != p.2).length / 2
    let m := found.1.length
    if m = 0 then ⟨0, 1⟩
    else
      ⟨m * m * b.length + m * m * a.length + (m - swapped) * a.length * b.length,
        3 * a.length * b.length * m⟩

/-- The word that is most like `text`, the last of them if several are, among
those that are more than 7/10 like it. -/
def nearest? (text : String) (words : List String) : Option String :=
  let rated := words.map fun w => (w, jaro text.toList w.toList)
  let near := rated.filter fun w => Ratio.lt ⟨7, 10⟩ w.2
  (near.foldl (fun best w => match best with
    | none => some w
    | some b => if w.2.lt b.2 then some b else some w) none).map (·.1)

end TreeCompare.Similarity
