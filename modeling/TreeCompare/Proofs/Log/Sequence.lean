import Mathlib.Data.List.Forall2
import TreeCompare.Log

/-!
# Steps in sequence

Steps that each yield a list or fail are done one after the other, and their yields are
put together. The whole fails with the error of the first step that fails.
-/
namespace TreeCompare

variable {α β γ ε : Type}

section LawfulMonad

variable {m : Type → Type} [Monad m] [LawfulMonad m]

theorem flatMapM_append (f : α → m (List β)) (a b : List α) :
    (a ++ b).flatMapM f = do
      let front ← a.flatMapM f
      let back ← b.flatMapM f
      return front ++ back := by
  induction a with
  | nil => simp
  | cons x a ih =>
      simp only [List.cons_append, List.flatMapM_cons, ih, bind_assoc, pure_bind,
        List.append_assoc]

theorem flatMapM_map_list (g : α → β) (f : β → m (List γ)) (as : List α) :
    (as.map g).flatMapM f = as.flatMapM fun a => f (g a) := by
  induction as with
  | nil => rfl
  | cons a as ih => rw [List.map_cons, List.flatMapM_cons, List.flatMapM_cons, ih]

theorem flatMapM_flatMap (g : α → List β) (f : β → m (List γ)) (as : List α) :
    (as.flatMap g).flatMapM f = as.flatMapM fun a => (g a).flatMapM f := by
  induction as with
  | nil => rfl
  | cons a as ih => rw [List.flatMap_cons, flatMapM_append, List.flatMapM_cons, ih]

theorem flatMapM_congr {f g : α → m (List β)} {as : List α} (h : ∀ a ∈ as, f a = g a) :
    as.flatMapM f = as.flatMapM g := by
  induction as with
  | nil => rfl
  | cons a as ih =>
      obtain ⟨ha, has⟩ := List.forall_mem_cons.1 h
      rw [List.flatMapM_cons, List.flatMapM_cons, ha, ih has]

end LawfulMonad

theorem result_flatMapM (f : α → Logged ε (List β)) (as : List α) :
    (as.flatMapM f).result = as.flatMapM fun a => (f a).result := by
  induction as with
  | nil => rfl
  | cons a as ih =>
      rw [List.flatMapM_cons, List.flatMapM_cons, Logged.result_bind]
      simp only [Logged.result_bind, ih]
      rfl

/-- Steps that may fail, done in order, end with the error of the first that fails. -/
theorem flatMapM_eq_error_iff {f : α → Except ε (List β)} {as : List α} {e : ε} :
    as.flatMapM f = .error e ↔
      ∃ done a rest, as = done ++ a :: rest ∧ (∀ b ∈ done, ∃ bs, f b = .ok bs) ∧
        f a = .error e := by
  induction as with
  | nil => simp [pure, Except.pure]
  | cons a as ih =>
      rw [List.flatMapM_cons]
      cases ha : f a with
      | error e' =>
          change Except.error e' = .error e ↔ _
          constructor
          · intro he
            exact ⟨[], a, as, rfl, by simp, by rw [ha, he]⟩
          · rintro ⟨_ | ⟨b, done⟩, a', rest, heq, hdone, herr⟩
            · obtain ⟨rfl, -⟩ := List.cons.inj heq
              rw [← ha, herr]
            · obtain ⟨rfl, -⟩ := List.cons.inj heq
              obtain ⟨bs, hbs⟩ := hdone a List.mem_cons_self
              rw [ha] at hbs
              cases hbs
      | ok bs =>
          have hmap : (do let rest ← as.flatMapM f; return bs ++ rest) = .error e ↔
              as.flatMapM f = .error e := by
            cases as.flatMapM f <;> simp [bind, Except.bind, pure, Except.pure]
          change (do let rest ← as.flatMapM f; return bs ++ rest) = .error e ↔ _
          rw [hmap, ih]
          constructor
          · rintro ⟨done, a', rest, rfl, hdone, herr⟩
            exact ⟨a :: done, a', rest, rfl, List.forall_mem_cons.2 ⟨⟨bs, ha⟩, hdone⟩, herr⟩
          · rintro ⟨_ | ⟨b, done⟩, a', rest, heq, hdone, herr⟩
            · obtain ⟨rfl, -⟩ := List.cons.inj heq
              rw [ha] at herr
              cases herr
            · obtain ⟨rfl, rfl⟩ := List.cons.inj heq
              exact ⟨done, a', rest, rfl, (List.forall_mem_cons.1 hdone).2, herr⟩

theorem flatMapM_eq_ok_iff {f : α → Except ε (List β)} {as : List α} {bs : List β} :
    as.flatMapM f = .ok bs ↔
      ∃ yields, List.Forall₂ (fun a y => f a = .ok y) as yields ∧ bs = yields.flatten := by
  induction as generalizing bs with
  | nil => simp [pure, Except.pure, eq_comm]
  | cons a as ih =>
      rw [List.flatMapM_cons]
      simp only [List.forall₂_cons_left_iff]
      cases ha : f a with
      | error e => simp [bind, Except.bind]
      | ok y =>
          change (do let rest ← as.flatMapM f; return y ++ rest) = .ok bs ↔ _
          constructor
          · intro h
            cases has : as.flatMapM f with
            | error e => simp [has, bind, Except.bind] at h
            | ok rest =>
                obtain rfl : y ++ rest = bs := by
                  simpa [has, bind, Except.bind, pure, Except.pure] using h
                obtain ⟨yields, hall, rfl⟩ := ih.1 has
                exact ⟨y :: yields, ⟨y, yields, rfl, hall, rfl⟩, rfl⟩
          · rintro ⟨_, ⟨y', yields, hy, hall, rfl⟩, rfl⟩
            obtain rfl := Except.ok.inj hy
            rw [ih.2 ⟨yields, hall, rfl⟩]
            rfl

/-- Work on a list that ends well has ended well on its first and its other elements. -/
theorem flatMapM_cons_eq_ok {f : α → Logged ε (List β)} {a : α} {as : List α}
    {events : List Log.Event} {bs : List β} (h : (a :: as).flatMapM f = ⟨events, .ok bs⟩) :
    ∃ before own after others, f a = ⟨before, .ok own⟩ ∧
      as.flatMapM f = ⟨after, .ok others⟩ ∧ events = before ++ after ∧ bs = own ++ others := by
  rw [List.flatMapM_cons] at h
  obtain ⟨before, own, rest, hfirst, hrest, rfl⟩ := Logged.bind_eq_ok h
  obtain ⟨after, others, last, hothers, hpure, rfl⟩ := Logged.bind_eq_ok hrest
  cases hpure
  exact ⟨before, own, after, others, hfirst, hothers, by rw [List.append_nil], rfl⟩

end TreeCompare
