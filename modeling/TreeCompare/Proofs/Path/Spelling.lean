import Mathlib.Logic.Relation
import TreeCompare.Proofs.Path.Relative

/-!
# Spellings of a path

A piece between slashes that is empty or `.` says nothing about the place a path
stands for, unless it is the `.` that a path begins with. So a path may be spelled
with slashes repeated or at its end and with inner `.` components. There is no other
way for two paths to be the same.
-/
namespace TreeCompare.Path

open Relation (EqvGen)

/-- A piece between slashes that stands for no component. -/
def Blank (piece : List UInt8) : Prop := piece = [] ∨ piece = dot

/-- One blank piece taken out of a path: between two slashes, or behind the last. -/
inductive Respelled : Path → Path → Prop
  | inner (front back : List UInt8) {piece : List UInt8} (h : Blank piece) :
      Respelled ⟨front ++ slash :: (piece ++ slash :: back)⟩ ⟨front ++ slash :: back⟩
  | lastDot (front : List UInt8) : Respelled ⟨front ++ slash :: dot⟩ ⟨front ++ [slash]⟩
  | lastSlash {front : List UInt8} (h : front ≠ []) : Respelled ⟨front ++ [slash]⟩ ⟨front⟩

theorem Blank.split {piece : List UInt8} (h : Blank piece) : split piece = [piece] := by
  apply split_of_notMem
  obtain rfl | rfl := h <;> decide

theorem Blank.component {piece : List UInt8} (h : Blank piece) : component? piece = none := by
  obtain rfl | rfl := h <;> decide

/-- What the components of a path are read from: the slash it begins with, its first
piece, and the pieces that stand for something. -/
theorem same_of_pieces {p q : Path} (habs : p.isAbsolute = q.isAbsolute)
    (hhead : (split p.bytes).head? = (split q.bytes).head?)
    (hinner : (split p.bytes).filterMap component? = (split q.bytes).filterMap component?) :
    p.Same q := by
  rw [Same, components, components, habs, hhead, hinner]

theorem isAbsolute_append_slash (front a b : List UInt8) :
    (Path.mk (front ++ slash :: a)).isAbsolute = (Path.mk (front ++ slash :: b)).isAbsolute := by
  cases front <;> simp [isAbsolute]

theorem head?_split_append_slash (front rest : List UInt8) :
    (split (front ++ slash :: rest)).head? = (split front).head? := by
  rw [split_append_slash, List.head?_append_of_ne_nil _ (split_ne_nil front)]

theorem filterMap_split_append_slash (front rest : List UInt8) :
    (split (front ++ slash :: rest)).filterMap component? =
      (split front).filterMap component? ++ (split rest).filterMap component? := by
  rw [split_append_slash, List.filterMap_append]

theorem Blank.filterMap_split {piece : List UInt8} (h : Blank piece) :
    (Path.split piece).filterMap component? = [] := by
  rw [h.split, List.filterMap_cons_none h.component, List.filterMap_nil]

theorem Respelled.same {p q : Path} (h : Respelled p q) : p.Same q := by
  have hnil : Blank [] := .inl rfl
  have hdot : Blank dot := .inr rfl
  cases h with
  | inner front back h =>
      refine same_of_pieces (isAbsolute_append_slash _ _ _) ?_ ?_
      · simp only [head?_split_append_slash]
      · simp only [filterMap_split_append_slash, h.filterMap_split, List.nil_append]
  | lastDot front =>
      refine same_of_pieces (isAbsolute_append_slash _ _ _) ?_ ?_
      · simp only [head?_split_append_slash]
      · simp only [filterMap_split_append_slash, hnil.filterMap_split, hdot.filterMap_split]
  | lastSlash hf =>
      refine same_of_pieces ?_ ?_ ?_
      · simp only [isAbsolute, List.head?_append_of_ne_nil _ hf]
      · simp only [head?_split_append_slash]
      · simp only [filterMap_split_append_slash, hnil.filterMap_split, List.append_nil]

theorem blank_of_component?_none {piece : List UInt8} (hs : slash ∉ piece)
    (h : component? piece = none) : Blank piece := by
  by_contra hb
  obtain ⟨hnil, hdot⟩ := not_or.1 hb
  by_cases hp : piece = dotDot
  · simp [component?, hp] at h
  · have hv : ValidName piece := ⟨hnil, hs, hdot, hp⟩
    simp [component?, hp, hv] at h

theorem path_of_component? {piece : List UInt8} {c : Component}
    (h : component? piece = some c) : c.path = ⟨piece⟩ := by
  unfold component? at h
  split_ifs at h with hp hv
  · cases h
    rw [hp]
    rfl
  · cases h
    rfl

theorem components_append_slash {front piece : List UInt8} (hf : front ≠ [])
    (hs : slash ∉ piece) :
    components ⟨front ++ slash :: piece⟩ = components ⟨front⟩ ++ (component? piece).toList := by
  have hone : (split piece).filterMap component? = (component? piece).toList := by
    rw [split_of_notMem hs]
    cases h : component? piece <;> simp [h]
  have habs : (Path.mk (front ++ slash :: piece)).isAbsolute = (Path.mk front).isAbsolute := by
    simp only [isAbsolute, List.head?_append_of_ne_nil _ hf]
  simp only [components, habs, head?_split_append_slash, filterMap_split_append_slash, hone]
  split_ifs <;> rfl

theorem Respelled.ne_nil {p q : Path} (h : Respelled p q) : p.bytes ≠ [] ∧ q.bytes ≠ [] := by
  cases h with
  | inner => simp
  | lastDot => simp
  | lastSlash h => exact ⟨by simp, h⟩

theorem bytes_eq_nil_iff {p q : Path} (h : EqvGen Respelled p q) :
    p.bytes = [] ↔ q.bytes = [] := by
  induction h with
  | rel p q h => simp [h.ne_nil]
  | refl p => rfl
  | symm p q _ ih => exact ih.symm
  | trans p q r _ _ ih ih' => exact ih.trans ih'

/-- Two spellings stay spellings of one place with a further piece behind them. -/
theorem append_slash_respelled {p q : Path} (h : EqvGen Respelled p q) (rest : List UInt8) :
    EqvGen Respelled ⟨p.bytes ++ slash :: rest⟩ ⟨q.bytes ++ slash :: rest⟩ := by
  have hblank (front : List UInt8) {piece : List UInt8} (hp : Blank piece) :
      EqvGen Respelled ⟨front ++ slash :: (piece ++ slash :: rest)⟩ ⟨front ++ slash :: rest⟩ :=
    .rel _ _ (.inner front rest hp)
  induction h with
  | rel p q h =>
      cases h with
      | inner front back h =>
          simpa using EqvGen.rel _ _ (Respelled.inner front (back ++ slash :: rest) h)
      | lastDot front =>
          have hdot := hblank front (.inr rfl)
          have hslash := hblank front (.inl rfl)
          simpa using hdot.trans _ _ _ (hslash.symm _ _)
      | lastSlash h => simpa using hblank _ (.inl rfl)
  | refl p => exact .refl _
  | symm p q _ ih => exact ih.symm _ _
  | trans p q r _ _ ih ih' => exact ih.trans _ _ _ ih'

theorem join_respelled {base : Path} {piece : List UInt8} (hb : base.bytes ≠ [])
    (ha : (Path.mk piece).isAbsolute = false) :
    EqvGen Respelled ⟨base.bytes ++ slash :: piece⟩ (base.join ⟨piece⟩) := by
  rw [join_not_absolute _ _ ha]
  by_cases hs : base.endsWithSlash = true
  · obtain ⟨front, hf⟩ := (endsWithSlash_iff base).1 hs
    rw [hs, Bool.or_true, if_pos rfl, hf]
    simpa using EqvGen.rel _ _ (@Respelled.inner front piece [] (.inl rfl))
  · rw [if_neg (by simp [hb, hs])]
    exact .refl _

theorem last_respelled {front piece : List UInt8} (hf : front ≠ []) (h : Blank piece) :
    EqvGen Respelled ⟨front ++ slash :: piece⟩ ⟨front⟩ := by
  have hslash : EqvGen Respelled ⟨front ++ [slash]⟩ ⟨front⟩ := .rel _ _ (.lastSlash hf)
  obtain rfl | rfl := h
  · exact hslash
  · exact .trans _ _ _ (.rel _ _ (.lastDot front)) hslash

theorem exists_last_slash {bytes : List UInt8} (h : slash ∈ bytes) :
    ∃ front piece, bytes = front ++ slash :: piece ∧ slash ∉ piece := by
  obtain ⟨tail, front, heq, hnot⟩ := List.eq_append_cons_of_mem (List.mem_reverse.2 h)
  refine ⟨front.reverse, tail.reverse, ?_, by simpa using hnot⟩
  simpa using congrArg List.reverse heq

theorem not_absolute_of_notMem {piece : List UInt8} (h : slash ∉ piece) :
    (Path.mk piece).isAbsolute = false := by
  cases piece with
  | nil => rfl
  | cons b rest =>
      have hb : b ≠ slash := fun e => h (by simp [e])
      simp [isAbsolute, hb]

theorem components_slash {piece : List UInt8} (hs : slash ∉ piece) :
    components ⟨slash :: piece⟩ = .root :: (component? piece).toList := by
  have hsplit : split (slash :: piece) = [[], piece] := by
    rw [split, if_pos rfl, split_of_notMem hs]
  cases h : component? piece <;> simp [components, isAbsolute, hsplit, h]

theorem components_piece {piece : List UInt8} (hs : slash ∉ piece) (hd : piece ≠ dot) :
    components ⟨piece⟩ = (component? piece).toList := by
  cases h : component? piece <;>
    simp [components, not_absolute_of_notMem hs, split_of_notMem hs, hd, h]

theorem ofComponents_piece {piece : List UInt8} {c : Component}
    (h : component? piece = some c) (front : List Component) :
    ofComponents (front ++ [c]) = (ofComponents front).join ⟨piece⟩ := by
  rw [← path_of_component? h]
  simp [ofComponents]

theorem piece_respelled {piece : List UInt8} (hs : slash ∉ piece) :
    EqvGen Respelled ⟨piece⟩ (ofComponents (components ⟨piece⟩)) := by
  by_cases hd : piece = dot
  · subst hd
    exact .refl _
  rw [components_piece hs hd]
  cases h : component? piece with
  | none =>
      obtain rfl := (blank_of_component?_none hs h).resolve_right hd
      exact .refl _
  | some c =>
      rw [Option.toList_some, ← List.nil_append [c], ofComponents_piece h,
        join_not_absolute _ _ (not_absolute_of_notMem hs)]
      exact .refl _

theorem slash_respelled {piece : List UInt8} (hs : slash ∉ piece) :
    EqvGen Respelled ⟨slash :: piece⟩ (ofComponents (components ⟨slash :: piece⟩)) := by
  rw [components_slash hs]
  cases h : component? piece with
  | none =>
      obtain rfl | rfl := blank_of_component?_none hs h
      · exact .refl _
      · exact .rel _ _ (.lastDot [])
  | some c =>
      have hjoin := ofComponents_piece h [.root]
      rw [join_not_absolute _ _ (not_absolute_of_notMem hs)] at hjoin
      exact hjoin ▸ .refl _

theorem append_piece_respelled {front piece : List UInt8} (hf : front ≠ [])
    (hs : slash ∉ piece) (hfront : EqvGen Respelled ⟨front⟩ (ofComponents (components ⟨front⟩))) :
    EqvGen Respelled ⟨front ++ slash :: piece⟩
      (ofComponents (components ⟨front ++ slash :: piece⟩)) := by
  rw [components_append_slash hf hs]
  cases h : component? piece with
  | none =>
      rw [Option.toList_none, List.append_nil]
      exact (last_respelled hf (blank_of_component?_none hs h)).trans _ _ _ hfront
  | some c =>
      have hne : (ofComponents (components ⟨front⟩)).bytes ≠ [] :=
        mt (bytes_eq_nil_iff hfront).2 hf
      rw [Option.toList_some, ofComponents_piece h]
      exact (append_slash_respelled hfront piece).trans _ _ _
        (join_respelled hne (not_absolute_of_notMem hs))

/-- Every path is a spelling of the path that is written from its components. -/
theorem respelled_ofComponents (p : Path) : EqvGen Respelled p (ofComponents p.components) := by
  obtain ⟨bytes⟩ := p
  -- by the length, since the piece behind the last slash is taken off
  induction hn : bytes.length using Nat.strongRecOn generalizing bytes with
  | ind n ih =>
      by_cases hs : slash ∈ bytes
      · obtain ⟨front, piece, rfl, hp⟩ := exists_last_slash hs
        by_cases hf : front = []
        · subst hf
          exact slash_respelled hp
        · refine append_piece_respelled hf hp (ih front.length ?_ front rfl)
          rw [← hn, List.length_append, List.length_cons]
          omega
      · exact piece_respelled hs

/-- Two paths are the same place exactly if one is the other with blank pieces put in
or taken out. -/
theorem same_iff_respelled {p q : Path} : p.Same q ↔ EqvGen Respelled p q := by
  constructor
  · intro h
    have hq := respelled_ofComponents q
    rw [← h] at hq
    exact (respelled_ofComponents p).trans _ _ _ (hq.symm _ _)
  · intro h
    induction h with
    | rel p q h => exact h.same
    | refl p => rfl
    | symm p q _ ih => exact ih.symm
    | trans p q r _ _ ih ih' => exact ih.trans ih'

end TreeCompare.Path
