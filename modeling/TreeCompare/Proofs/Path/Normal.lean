import Mathlib.Data.Fintype.EquivFin
import Mathlib.Data.List.Induction
import TreeCompare.Path.Lexical
import TreeCompare.Proofs.Path.Spelling

/-!
# The normal form is canonical

What is kept of a path's components leads wherever the components lead, and it is the
root with names behind it or some `..` with names behind them. Written as a path it
reads as these components again. Two such lists of components that lead to the same
place from every directory are one: from a directory whose names are all one name that
neither of them has, the place reached tells the `..` and the names apart.
-/
namespace TreeCompare

namespace Component

/-- Components in normal form: the root or some `..`, then only names. -/
inductive Normal : List Component → Prop
  | absolute (names : List Name) : Normal (.root :: names.map .name)
  | relative (ups : Nat) (names : List Name) :
      Normal (List.replicate ups .parent ++ names.map .name)

/-- The components kept so far, the last of them first, in normal form. -/
inductive Settled : List Component → Prop
  | absolute (names : List Name) : Settled (names.map .name ++ [.root])
  | relative (names : List Name) (ups : Nat) :
      Settled (names.map .name ++ List.replicate ups .parent)

theorem Settled.normal_reverse {kept : List Component} (h : Settled kept) :
    Normal kept.reverse := by
  cases h with
  | absolute names =>
      rw [List.reverse_append, ← List.map_reverse]
      exact .absolute names.reverse
  | relative names ups =>
      rw [List.reverse_append, ← List.map_reverse, List.reverse_replicate]
      exact .relative ups names.reverse

theorem Settled.push {kept : List Component} (h : Settled kept) (n : Name) :
    Settled (.name n :: kept) := by
  cases h with
  | absolute names => exact .absolute (n :: names)
  | relative names ups => exact .relative (n :: names) ups

theorem Settled.parent {kept : List Component} (h : Settled kept) :
    Settled (settle kept .parent) := by
  cases h with
  | absolute names =>
      cases names with
      | nil => exact .absolute []
      | cons n names => exact .absolute names
  | relative names ups =>
      cases names with
      | nil =>
          cases ups with
          | zero => exact .relative [] 1
          | succ ups => exact .relative [] (ups + 2)
      | cons n names => exact .relative names ups

theorem Settled.settle {kept : List Component} (h : Settled kept) {c : Component}
    (hc : c ≠ .root) : Settled (settle kept c) := by
  cases c with
  | root => exact absurd rfl hc
  | current => rwa [Component.settle]
  | parent => exact h.parent
  | name n =>
      rw [Component.settle.eq_def]
      exact h.push n

theorem Settled.foldl {kept cs : List Component} (h : Settled kept)
    (hcs : ∀ c ∈ cs, c ≠ .root) : Settled (cs.foldl Component.settle kept) := by
  induction cs generalizing kept with
  | nil => exact h
  | cons c cs ih =>
      obtain ⟨hc, hcs⟩ := List.forall_mem_cons.1 hcs
      exact ih (h.settle hc) hcs

/-- A component that is added leads on from the place that the kept ones lead to. -/
theorem apply_settle (base : List Name) (kept : List Component) (c : Component) :
    (settle kept c).reverse.foldl apply base = apply (kept.reverse.foldl apply base) c := by
  unfold settle
  split
  · rfl
  · simp [apply]
  · simp [apply]
  · simp

theorem apply_settleAll (base : List Name) (cs : List Component) :
    (settleAll cs).foldl apply base = cs.foldl apply base := by
  have hkept (kept : List Component) :
      (cs.foldl settle kept).reverse.foldl apply base =
        cs.foldl apply (kept.reverse.foldl apply base) := by
    induction cs generalizing kept with
    | nil => rfl
    | cons c cs ih => rw [List.foldl_cons, ih, apply_settle, List.foldl_cons]
  exact hkept []

theorem apply_names (place names : List Name) :
    (names.map name).foldl apply place = place ++ names := by
  induction names generalizing place with
  | nil => simp
  | cons n names ih => simp [ih, apply]

theorem apply_parents (place : List Name) (ups : Nat) :
    (List.replicate ups parent).foldl apply place = place.take (place.length - ups) := by
  induction ups generalizing place with
  | zero => simp
  | succ ups ih =>
      rw [List.replicate_succ, List.foldl_cons, ih, apply, List.dropLast_eq_take, List.take_take,
        List.length_take]
      congr 1
      omega

/-- Names are there without end. -/
def letters (n : Nat) : Name :=
  ⟨List.replicate (n + 1) 0x61, by simp, by simp [slash], by simp [dot, List.replicate_succ],
    by simp [dotDot, List.replicate_succ]⟩

instance : Infinite Name := by
  refine Infinite.of_injective letters fun a b h => ?_
  simpa [letters] using congrArg (fun n => n.bytes.length) h

theorem exists_fresh (names : List Name) : ∃ n, n ∉ names := by
  obtain ⟨n, hn⟩ := Infinite.exists_notMem_finset names.toFinset
  exact ⟨n, by simpa using hn⟩

theorem apply_normal_absolute (base names : List Name) :
    (root :: names.map name).foldl apply base = names := by
  rw [List.foldl_cons, apply_names, apply, List.nil_append]

/-- From a directory of many equal names, `..` leave some of these. -/
theorem apply_normal_relative (x : Name) (deep ups : Nat) (names : List Name) :
    (List.replicate ups parent ++ names.map name).foldl apply (List.replicate deep x) =
      List.replicate (deep - ups) x ++ names := by
  rw [List.foldl_append, apply_parents, apply_names, List.take_replicate, List.length_replicate,
    Nat.min_eq_left (Nat.sub_le _ _)]

/-- Normal components that lead to one place from every directory are equal. -/
theorem Normal.eq_of_apply {cs ds : List Component} (hc : Normal cs) (hd : Normal ds)
    (h : ∀ base, cs.foldl apply base = ds.foldl apply base) : cs = ds := by
  have hmixed (names names' : List Name) (ups : Nat)
      (h : ∀ base, (root :: names.map name).foldl apply base =
        (List.replicate ups parent ++ names'.map name).foldl apply base) : False := by
    obtain ⟨x, hx⟩ := exists_fresh names
    have hplace := h (List.replicate (ups + 1) x)
    rw [apply_normal_absolute, apply_normal_relative, Nat.add_sub_cancel_left] at hplace
    exact hx (by simp [hplace])
  cases hc with
  | absolute names =>
      cases hd with
      | absolute names' =>
          have hplace := h []
          rw [apply_normal_absolute, apply_normal_absolute] at hplace
          rw [hplace]
      | relative ups names' => exact (hmixed names names' ups h).elim
  | relative ups names =>
      cases hd with
      | absolute names' => exact (hmixed names' names ups fun base => (h base).symm).elim
      | relative ups' names' =>
          obtain ⟨x, hx⟩ := exists_fresh (names ++ names')
          obtain ⟨hx, hx'⟩ := not_or.1 (mt List.mem_append.2 hx)
          have hplace := h (List.replicate (ups + ups') x)
          rw [apply_normal_relative, apply_normal_relative] at hplace
          -- the directory's own name occurs as often as the `..` left it
          have hcount := congrArg (List.count x) hplace
          rw [List.count_append, List.count_append, List.count_replicate_self,
            List.count_replicate_self, List.count_eq_zero.2 hx, List.count_eq_zero.2 hx'] at hcount
          obtain rfl : ups = ups' := by omega
          rw [List.append_cancel_left hplace]

end Component

namespace Path

/-- What a path begins with may be the root, and nothing behind it is. -/
theorem components_cases (p : Path) : ∃ inner : List Component, (∀ c ∈ inner, c ≠ .root) ∧
    (p.components = .root :: inner ∨ p.components = inner) := by
  have hpieces : ∀ c ∈ (split p.bytes).filterMap component?, c ≠ .root := by
    intro c hc
    obtain ⟨piece, -, hpiece⟩ := List.mem_filterMap.1 hc
    rintro rfl
    unfold component? at hpiece
    split_ifs at hpiece <;> cases hpiece
  unfold components
  split_ifs
  · exact ⟨_, hpieces, .inl rfl⟩
  · exact ⟨.current :: _, List.forall_mem_cons.2 ⟨nofun, hpieces⟩, .inr rfl⟩
  · exact ⟨_, hpieces, .inr rfl⟩

theorem normal_settleAll (p : Path) : Component.Normal (Component.settleAll p.components) := by
  obtain ⟨inner, hinner, h | h⟩ := components_cases p
  · rw [h]
    exact ((Component.Settled.absolute []).foldl hinner).normal_reverse
  · rw [h]
    exact ((Component.Settled.relative [] 0).foldl hinner).normal_reverse

/-- A piece that stands for a component adds this component, whatever it is joined to. -/
theorem components_join_piece {piece : List UInt8} {c : Component} (h : component? piece = some c)
    (base : Path) : (base.join ⟨piece⟩).components = base.components ++ [c] := by
  have hslash : slash ∉ piece := by
    unfold component? at h
    split_ifs at h with hp hv
    · rw [hp]
      decide
    · exact hv.2.1
  have hdot : piece ≠ dot := by
    rintro rfl
    cases h
  have habs := not_absolute_of_notMem hslash
  by_cases hb : base.bytes = []
  · obtain ⟨bytes⟩ := base
    obtain rfl : bytes = [] := hb
    have hjoin : (Path.mk []).join ⟨piece⟩ = ⟨piece⟩ := by
      rw [join_not_absolute _ _ habs]
      rfl
    rw [hjoin, components_piece hslash hdot, h]
    rfl
  · have hsame : Same ⟨base.bytes ++ slash :: piece⟩ (base.join ⟨piece⟩) :=
      same_iff_respelled.2 (join_respelled hb habs)
    rw [← hsame, components_append_slash hb hslash, h]
    rfl

theorem components_foldl_join {cs : List Component}
    (h : ∀ c ∈ cs, component? c.path.bytes = some c) (p : Path) :
    (cs.foldl (fun path c => path.join c.path) p).components = p.components ++ cs := by
  induction cs generalizing p with
  | nil => simp
  | cons c cs ih =>
      obtain ⟨hc, hcs⟩ := List.forall_mem_cons.1 h
      rw [List.foldl_cons, ih hcs, components_join_piece hc, List.append_assoc,
        List.singleton_append]

/-- Components in normal form are those of the path that is written from them. -/
theorem components_ofComponents {cs : List Component} (h : Component.Normal cs) :
    (ofComponents cs).components = cs := by
  have hnames (names : List Name) :
      ∀ c ∈ names.map Component.name, component? c.path.bytes = some c := by
    intro c hc
    obtain ⟨n, -, rfl⟩ := List.mem_map.1 hc
    exact component?_name n
  cases h with
  | absolute names => exact components_foldl_join (hnames names) ⟨[slash]⟩
  | relative ups names =>
      refine components_foldl_join (p := .empty) (List.forall_mem_append.2 ⟨?_, hnames names⟩)
      intro c hc
      rw [List.eq_of_mem_replicate hc]
      decide

theorem components_normalize (p : Path) :
    p.normalize.components = Component.settleAll p.components :=
  components_ofComponents (normal_settleAll p)

theorem meaning_normalize (base : List Name) (p : Path) :
    p.normalize.meaning base = p.meaning base := by
  rw [meaning, components_normalize, Component.apply_settleAll, meaning]

theorem normalize_eq_of_same {p q : Path} (h : p.normalize.Same q.normalize) :
    p.normalize = q.normalize := by
  rw [Same, components_normalize, components_normalize] at h
  rw [normalize, h, normalize]

/-- Paths that lead to one place from every directory have one normal form. -/
theorem normalize_eq_of_meaning {p q : Path} (h : ∀ base, p.meaning base = q.meaning base) :
    p.normalize = q.normalize := by
  refine normalize_eq_of_same ?_
  rw [Same, components_normalize, components_normalize]
  refine (normal_settleAll p).eq_of_apply (normal_settleAll q) fun base => ?_
  rw [Component.apply_settleAll, Component.apply_settleAll]
  exact h base

/-- The normal form of a path leads where the path leads, is in normal form as it is
read, is its own normal form, and is one for all paths that lead to the same places. -/
theorem normalize_canonical (p : Path) :
    (∀ base, p.normalize.meaning base = p.meaning base) ∧
    ((∃ names : List Name, p.normalize.components = .root :: names.map .name) ∨
      ∃ (ups : Nat) (names : List Name),
        p.normalize.components = List.replicate ups .parent ++ names.map .name) ∧
    p.normalize.normalize = p.normalize ∧
    ∀ q : Path,
      (p.normalize = q.normalize ↔ ∀ base, p.meaning base = q.meaning base) ∧
      (p.normalize.Same q.normalize ↔ ∀ base, p.meaning base = q.meaning base) := by
  have hmeaning {q : Path} (h : p.normalize = q.normalize) (base : List Name) :
      p.meaning base = q.meaning base := by
    rw [← meaning_normalize, h, meaning_normalize]
  refine ⟨fun base => meaning_normalize base p, ?_, ?_, fun q => ⟨⟨hmeaning, ?_⟩, ?_, ?_⟩⟩
  · have hnormal := normal_settleAll p
    rw [← components_normalize] at hnormal
    generalize p.normalize.components = cs at hnormal ⊢
    cases hnormal with
    | absolute names => exact .inl ⟨names, rfl⟩
    | relative ups names => exact .inr ⟨ups, names, rfl⟩
  · exact normalize_eq_of_meaning fun base => meaning_normalize base p
  · exact normalize_eq_of_meaning
  · exact fun h => hmeaning (normalize_eq_of_same h)
  · intro h
    rw [normalize_eq_of_meaning h]
    rfl

end Path

end TreeCompare
