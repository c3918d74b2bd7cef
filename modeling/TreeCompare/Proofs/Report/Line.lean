import TreeCompare.Proofs.Text.Quoted
import TreeCompare.Report.Outcome

/-!
# Lines of a report

The line of an outcome begins with a label that says its kind. If the file is there
in both trees a quoted name follows, which ends itself, and two fingerprints, each of
a hash of fixed width and a decimal up to its closing bracket. So the line says
everything about the outcome, and as all of it is printable it is one line.
-/
namespace TreeCompare

namespace Fingerprint

theorem toList_text (f : Fingerprint) :
    f.text.toList = '(' :: '\'' :: (Numeral.hexDigits 32 f.digest.value.toNat ++
      '\'' :: ',' :: ' ' :: ((Numeral.decimal f.size).toList ++ [')'])) := by
  simp [text, Metro.Digest.text, Numeral.hex]

theorem digest_eq_of_toNat_eq {a b : Metro.Digest} (h : a.value.toNat = b.value.toNat) :
    a = b := by
  cases a
  cases b
  exact congrArg _ (BitVec.eq_of_toNat_eq h)

/-- A fingerprint's text ends itself, and no two fingerprints have one text. -/
theorem text_append_inj {f g : Fingerprint} {s t : List Char}
    (h : f.text.toList ++ s = g.text.toList ++ t) : f = g ∧ s = t := by
  simp only [toList_text, List.cons_append, List.append_assoc, List.nil_append,
    List.cons.injEq, true_and] at h
  obtain ⟨hdigits, hrest⟩ := List.append_inj h (by simp)
  simp only [List.cons.injEq, true_and] at hrest
  obtain ⟨hsize, rfl⟩ := Numeral.decimal_append_inj (by decide) hrest
  have hbound (d : Metro.Digest) : d.value.toNat < 16 ^ 32 := d.value.isLt
  have hvalue := congrArg Numeral.hexValue hdigits
  rw [Numeral.hexValue_hexDigits (hbound _), Numeral.hexValue_hexDigits (hbound _)] at hvalue
  obtain ⟨digest, size⟩ := f
  obtain ⟨digest', size'⟩ := g
  obtain rfl := digest_eq_of_toNat_eq hvalue
  obtain rfl : size = size' := hsize
  exact ⟨rfl, rfl⟩

theorem printable_of_isDigit {c : Char} (h : c.isDigit) : Printable.isPrintable c = true := by
  simp only [Char.isDigit, Bool.and_eq_true, decide_eq_true_eq, ge_iff_le,
    UInt32.le_iff_toNat_le] at h
  obtain ⟨hlow, hhigh⟩ := h
  exact Quoted.printable_of_ascii (Nat.le_trans (by decide) hlow)
    (Nat.le_trans hhigh (by decide))

theorem printable_text (f : Fingerprint) :
    ∀ c ∈ f.text.toList, Printable.isPrintable c = true := by
  rw [toList_text]
  simp only [List.forall_mem_cons, List.forall_mem_append]
  refine ⟨by decide, by decide, fun c => Quoted.printable_of_mem_hexDigits, by decide,
    by decide, by decide, fun c hc => ?_, by decide, by simp⟩
  exact printable_of_isDigit (Numeral.isDigit_of_mem_decimal hc)

end Fingerprint

namespace Outcome

theorem toList_line_same (name : Path) (f g : Fingerprint) :
    (same name f g).line.toList = 'O' :: 'k' :: ':' :: ' ' ::
      (Quoted.quoteChars name.bytes ++ ' ' ::
        (f.text.toList ++ ' ' :: '=' :: '=' :: ' ' :: g.text.toList)) := by
  simp [line, label, detail, Quoted.quote]

theorem toList_line_differs (name : Path) (f g : Fingerprint) :
    (differs name f g).line.toList = 'E' :: 'r' :: 'r' :: 'o' :: 'r' :: ':' :: ' ' ::
      (Quoted.quoteChars name.bytes ++ ' ' ::
        (f.text.toList ++ ' ' :: '!' :: '=' :: ' ' :: g.text.toList)) := by
  simp [line, label, detail, Quoted.quote]

theorem head?_line_missing (name : Path) : (missing name).line.toList.head? = some 'N' := by
  simp [line, label]

/-- A quoted name and two fingerprints can be told apart around the sign between them. -/
theorem compared_inj (sign : List Char) {name name' : Path} {f g f' g' : Fingerprint}
    (h : Quoted.quoteChars name.bytes ++ ' ' :: (f.text.toList ++ (sign ++ g.text.toList)) =
      Quoted.quoteChars name'.bytes ++ ' ' :: (f'.text.toList ++ (sign ++ g'.text.toList))) :
    name = name' ∧ f = f' ∧ g = g' := by
  obtain ⟨hname, hspace⟩ := Quoted.quoteChars_append_inj h
  obtain ⟨hsource, hsign⟩ := Fingerprint.text_append_inj (List.cons.inj hspace).2
  have hdest := List.append_cancel_left hsign
  rw [← List.append_nil g.text.toList, ← List.append_nil g'.text.toList] at hdest
  obtain ⟨bytes⟩ := name
  obtain ⟨bytes'⟩ := name'
  exact ⟨congrArg _ hname, hsource, (Fingerprint.text_append_inj hdest).1⟩

theorem printable_compared (name : Path) (f g : Fingerprint) (sign : List Char)
    (hsign : sign.all Printable.isPrintable = true) :
    ∀ c ∈ Quoted.quoteChars name.bytes ++ ' ' :: (f.text.toList ++ (sign ++ g.text.toList)),
      Printable.isPrintable c = true := by
  simp only [List.forall_mem_cons, List.forall_mem_append]
  exact ⟨fun c => Quoted.printable_quoteChars, by decide, f.printable_text,
    List.all_eq_true.1 hsign, g.printable_text⟩

theorem line_inj {o o' : Outcome} (ho : ∀ name, o ≠ .missing name) (h : o'.line = o.line) :
    o' = o := by
  have hchars := congrArg String.toList h
  cases o with
  | missing name => exact absurd rfl (ho name)
  | same name f g =>
      rw [toList_line_same] at hchars
      cases o' with
      | same name' f' g' =>
          rw [toList_line_same] at hchars
          simp only [List.cons.injEq, true_and] at hchars
          obtain ⟨rfl, rfl, rfl⟩ := compared_inj [' ', '=', '=', ' '] hchars
          rfl
      | differs name' f' g' =>
          rw [toList_line_differs] at hchars
          simp at hchars
      | missing name' =>
          have hhead := head?_line_missing name'
          rw [hchars] at hhead
          simp at hhead
  | differs name f g =>
      rw [toList_line_differs] at hchars
      cases o' with
      | same name' f' g' =>
          rw [toList_line_same] at hchars
          simp at hchars
      | differs name' f' g' =>
          rw [toList_line_differs] at hchars
          simp only [List.cons.injEq, true_and] at hchars
          obtain ⟨rfl, rfl, rfl⟩ := compared_inj [' ', '!', '=', ' '] hchars
          rfl
      | missing name' =>
          have hhead := head?_line_missing name'
          rw [hchars] at hhead
          simp at hhead

theorem printable_line {o : Outcome} (ho : ∀ name, o ≠ .missing name) :
    ∀ c ∈ o.line.toList, Printable.isPrintable c = true := by
  cases o with
  | missing name => exact absurd rfl (ho name)
  | same name f g =>
      rw [toList_line_same]
      simp only [List.forall_mem_cons]
      exact ⟨by decide, by decide, by decide, by decide,
        printable_compared name f g [' ', '=', '=', ' '] (by decide)⟩
  | differs name f g =>
      rw [toList_line_differs]
      simp only [List.forall_mem_cons]
      exact ⟨by decide, by decide, by decide, by decide, by decide, by decide, by decide,
        printable_compared name f g [' ', '!', '=', ' '] (by decide)⟩

/-- The line of a file that is in both trees says which outcome it is of, and is one
line. -/
theorem line_unambiguous {o : Outcome} (ho : ∀ name, o ≠ .missing name) :
    (∀ o' : Outcome, o'.line = o.line → o' = o) ∧
    (∀ c ∈ o.line.toList, Printable.isPrintable c = true) ∧
    '\n' ∉ o.line.toList := by
  refine ⟨fun o' => line_inj ho, printable_line ho, fun hm => ?_⟩
  have hnewline : Printable.isPrintable '\n' = false := by decide
  rw [printable_line ho _ hm] at hnewline
  cases hnewline

theorem line_unambiguous_newline :
    '\n' ∉ (same ⟨[0x0a, 0x27, 0xff]⟩ (.ofContent []) (.ofContent [])).line.toList :=
  (line_unambiguous fun _ h => by cases h).2.2

end Outcome

end TreeCompare
