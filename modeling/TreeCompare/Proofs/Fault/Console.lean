import Mathlib.Data.List.Chain
import Mathlib.Data.List.DropRight
import TreeCompare.Fault.Console

/-!
# What the cleaning of a report takes away

A message is shown as it is unless it ends with the message of its cause, with white space
or with a colon. From such a message only its end is taken. So a chain of messages none of
which is cut is shown whole, and where only the last message but one is cut, all others
stay as they are and the note is added.
-/
namespace TreeCompare.Console

/-- Whether a character is taken away where it ends a message. -/
def Loose (c : Char) : Prop := c = ':' ∨ Printable.whiteSpace.contains c = true

instance : DecidablePred Loose := fun _ => inferInstanceAs (Decidable (_ ∨ _))

/-- Whether something is taken from the end of a message with this cause. -/
def Cut (message cause : List Char) : Prop :=
  (cause ≠ [] ∧ cause <:+ message) ∨ ∃ last ∈ message.getLast?, Loose last

/-- Whether no end of a text is how `tail` begins. -/
def Apart (text tail : List Char) : Prop := ∀ s, s <:+ text → s <+: tail → s = []

theorem stripEnd_eq (drop : Char → Bool) (text : List Char) :
    stripEnd drop text = text.rdropWhile drop := rfl

theorem stripEnd_isPrefix (drop : Char → Bool) (text : List Char) : stripEnd drop text <+: text :=
  List.rdropWhile_prefix drop text

theorem stripEnd_eq_self_iff {drop : Char → Bool} {text : List Char} :
    stripEnd drop text = text ↔ ∀ last ∈ text.getLast?, drop last = false := by
  rw [stripEnd_eq, List.rdropWhile_eq_self_iff]
  cases text using List.reverseRecOn <;> simp

/-- What does not end with a character of the class is not entered. -/
theorem prefix_stripEnd {drop : Char → Bool} {front text : List Char}
    (h : ∀ last ∈ front.getLast?, drop last = false) (hp : front <+: text) :
    front <+: stripEnd drop text := by
  obtain ⟨more, rfl⟩ := hp
  induction more using List.reverseRecOn with
  | nil => exact ⟨[], by rw [List.append_nil, stripEnd_eq_self_iff.2 h]⟩
  | append_singleton more c ih =>
      rw [← List.append_assoc, stripEnd_eq, List.rdropWhile_concat]
      split
      · exact ih
      · exact (List.prefix_append _ _).trans (List.prefix_append _ _)

theorem stripTail_isPrefix (tail : List Char) (budget : Nat) (text : List Char) :
    stripTail tail budget text <+: text := by
  induction budget generalizing text with
  | zero => exact List.prefix_rfl
  | succ budget ih =>
      rw [stripTail]
      split
      · exact (ih _).trans (List.take_prefix _ _)
      · exact List.prefix_rfl

theorem stripTail_test {tail text : List Char} :
    (!tail.isEmpty && tail.isSuffixOf text) = true ↔ tail ≠ [] ∧ tail <:+ text := by
  simp

theorem stripTail_eq_self_iff {tail text : List Char} {budget : Nat} (h : text.length ≤ budget) :
    stripTail tail budget text = text ↔ ¬ (tail ≠ [] ∧ tail <:+ text) := by
  cases budget with
  | zero =>
      obtain rfl := List.length_eq_zero_iff.1 (Nat.le_zero.1 h)
      simp [stripTail]
  | succ budget =>
      rw [stripTail]
      split
      next hcut =>
        obtain ⟨hne, hsuffix⟩ := stripTail_test.1 hcut
        refine iff_of_false (fun heq => ?_) (not_not_intro ⟨hne, hsuffix⟩)
        have hle :=
          (stripTail_isPrefix tail budget (text.take (text.length - tail.length))).length_le
        have htail := List.length_pos_of_ne_nil hne
        have htext := hsuffix.length_le
        rw [heq, List.length_take] at hle
        omega
      next hkeep => exact iff_of_true rfl (mt stripTail_test.2 hkeep)

theorem Apart.suffix_append_iff {text tail : List Char} (h : Apart text tail) (more : List Char) :
    tail <:+ text ++ more ↔ tail <:+ more := by
  refine ⟨fun hs => ?_, fun hs => hs.trans (List.suffix_append _ _)⟩
  obtain ⟨front, hfront⟩ := hs
  obtain ⟨s, rfl, rfl⟩ | ⟨s, -, rfl⟩ := List.append_eq_append_iff.1 hfront
  · obtain rfl := h s (List.suffix_append _ _) (List.prefix_append _ _)
    exact List.suffix_rfl
  · exact List.suffix_append _ _

theorem prefix_stripTail {tail front : List Char} (h : Apart front tail) (budget : Nat)
    {text : List Char} (hp : front <+: text) : front <+: stripTail tail budget text := by
  induction budget generalizing text with
  | zero => exact hp
  | succ budget ih =>
      rw [stripTail]
      split
      next hcut =>
        obtain ⟨-, hsuffix⟩ := stripTail_test.1 hcut
        obtain ⟨more, rfl⟩ := hp
        have hle := ((h.suffix_append_iff more).1 hsuffix).length_le
        refine ih ⟨more.take (more.length - tail.length), ?_⟩
        rw [List.length_append, Nat.add_sub_assoc hle, List.take_length_add_append]
      next => exact hp

theorem clean_isPrefix (message cause : List Char) : clean message cause <+: message :=
  ((stripEnd_isPrefix _ _).trans (stripEnd_isPrefix _ _)).trans (stripTail_isPrefix _ _ _)

theorem clean_eq_self_iff {message cause : List Char} :
    clean message cause = message ↔ ¬ Cut message cause := by
  have hends : ¬ (∃ last ∈ message.getLast?, Loose last) ↔
      stripEnd (· == ':') message = message ∧
        stripEnd Printable.whiteSpace.contains message = message := by
    rw [stripEnd_eq_self_iff, stripEnd_eq_self_iff]
    cases message.getLast? <;> simp [Loose]
  rw [Cut, not_or, ← stripTail_eq_self_iff (Nat.le_refl _), hends]
  constructor
  · intro h
    -- each of the three steps leaves a prefix, so none of them may shorten the message
    have hstrip : clean message cause <+: stripTail cause message.length message :=
      (stripEnd_isPrefix _ _).trans (stripEnd_isPrefix _ _)
    rw [h] at hstrip
    have htail := (stripTail_isPrefix _ _ _).eq_of_length_le hstrip.length_le
    rw [clean, htail] at h
    have hspaces := stripEnd_isPrefix Printable.whiteSpace.contains message
    have hcolons := stripEnd_isPrefix (· == ':') (stripEnd Printable.whiteSpace.contains message)
    rw [h] at hcolons
    have hkept := hspaces.eq_of_length_le hcolons.length_le
    rw [hkept] at h
    exact ⟨htail, h, hkept⟩
  · rintro ⟨htail, hcolons, hspaces⟩
    rw [clean, htail, hspaces, hcolons]

/-- A message that is cut is shorter after the cleaning. -/
theorem Cut.length_bne {message cause : List Char} (h : Cut message cause) :
    ((clean message cause).length != message.length) = true :=
  bne_iff_ne.2 fun hl => clean_eq_self_iff.1 ((clean_isPrefix _ _).eq_of_length hl) h

theorem not_cut {message cause : List Char} (hfirm : ∀ last ∈ message.getLast?, ¬ Loose last)
    (hs : ¬ cause <:+ message) : ¬ Cut message cause := by
  rintro (⟨-, hsuffix⟩ | ⟨last, hl, hloose⟩)
  · exact hs hsuffix
  · exact hfirm last hl hloose

/-- What stands at the end of a fixed front decides whether something is cut. -/
theorem cut_append_iff {front text cause : List Char} (h : Apart front cause) (hne : text ≠ []) :
    Cut (front ++ text) cause ↔ Cut text cause := by
  rw [Cut, Cut, h.suffix_append_iff, List.getLast?_append_of_ne_nil _ hne]

/-- The cut does not go into a front that no copy of the cause reaches, but for what is
loose at its end. -/
theorem prefix_clean {front gap message cause : List Char} (happart : Apart (front ++ gap) cause)
    (hlast : ∀ last ∈ front.getLast?, ¬ Loose last) (hp : front ++ gap <+: message) :
    front <+: clean message cause := by
  have hcolon : ∀ last ∈ front.getLast?, (last == ':') = false :=
    fun last hl => beq_eq_false_iff_ne.2 fun he => hlast last hl (.inl he)
  have hspace : ∀ last ∈ front.getLast?, Printable.whiteSpace.contains last = false :=
    fun last hl => Bool.eq_false_iff.2 fun he => hlast last hl (.inr he)
  have htail := prefix_stripTail happart message.length hp
  exact prefix_stripEnd hcolon (prefix_stripEnd hspace ((List.prefix_append _ _).trans htail))

/-- Messages before one that may be cut are shown as they are, if none of them is cut. -/
theorem cleanAll_append {front : List (List Char)} {message : List Char}
    (h : (front ++ [message]).IsChain fun m c => ¬ Cut m c) (rest : List (List Char)) :
    cleanAll (front ++ message :: rest) = front.map (·, false) ++ cleanAll (message :: rest) := by
  induction front with
  | nil => rfl
  | cons m front ih =>
      have hstep {c : List Char} (hc : ¬ Cut m c) (more : List (List Char)) :
          cleanAll (m :: c :: more) = (m, false) :: cleanAll (c :: more) := by
        simp [cleanAll, clean_eq_self_iff.2 hc]
      cases front with
      | nil => exact hstep (List.isChain_cons_cons.1 h).1 rest
      | cons c front =>
          obtain ⟨hc, hfront⟩ := List.isChain_cons_cons.1 h
          exact (hstep hc _).trans (congrArg _ (ih hfront))

/-- Whether no message of a chain is cut. -/
def Uncut (chain : List String) : Prop :=
  (chain.map String.toList).IsChain fun m c => ¬ Cut m c

theorem Uncut.single (message : String) : Uncut [message] := List.isChain_singleton _

theorem Uncut.cons {message : String} {chain : List String} (h : Uncut chain)
    (hm : ∀ cause ∈ chain.head?, ¬ Cut message.toList cause.toList) : Uncut (message :: chain) := by
  refine List.isChain_cons.2 ⟨fun c hc => ?_, h⟩
  rw [List.head?_map] at hc
  obtain ⟨cause, hcause, rfl⟩ := Option.map_eq_some_iff.1 hc
  exact hm cause hcause

theorem shown_unchanged {message : String} (h : message ≠ "") :
    shown? (message.toList, false) = some message := by
  have hne : message.toList ≠ [] := mt String.toList_eq_nil_iff.1 h
  simp [shown?, hne]

theorem filterMap_shown {messages : List String} (h : "" ∉ messages) :
    ((messages.map String.toList).map (·, false)).filterMap shown? = messages := by
  rw [List.map_map, List.filterMap_map]
  refine (List.filterMap_congr fun m hm => ?_).trans List.filterMap_some
  exact shown_unchanged fun he => h (he ▸ hm)

theorem toList_ne_nil {messages : List String} (h : "" ∉ messages) :
    ∀ m ∈ messages, m.toList ≠ [] :=
  fun _ hm => mt String.toList_eq_nil_iff.1 fun he => h (he ▸ hm)

/-- A chain none of whose messages is cut is shown whole. -/
theorem report_of_uncut {chain : List String} (h : Uncut chain) (hne : "" ∉ chain) :
    report chain = body chain := by
  have hclean : cleanAll (chain.map String.toList) = (chain.map String.toList).map (·, false) := by
    cases chain using List.reverseRecOn with
    | nil => rfl
    | append_singleton front last =>
        rw [Uncut, List.map_append] at h
        rw [List.map_append, List.map_append]
        exact cleanAll_append h []
  have hremoved : ((chain.map String.toList).map (·, false)).any (·.1.isEmpty) = false := by
    simpa using toList_ne_nil hne
  have hmarked : ((chain.map String.toList).map (·, false)).any (fun m => m.2 && !m.1.isEmpty) =
      false := by
    simp
  simp only [report, hclean, filterMap_shown hne, hremoved, hmarked]
  cases chain with
  | nil => rfl
  | cons m rest => exact String.append_empty

/-- Where only the last message but one is cut, and something of it is left, it is shown
with the mark, all others as they are. -/
theorem report_of_cut {front : List String} {message cause : String}
    (h : Uncut (front ++ [message])) (hne : "" ∉ front) (hcause : cause ≠ "")
    (hcut : Cut message.toList cause.toList) (hkept : clean message.toList cause.toList ≠ []) :
    report (front ++ [message, cause]) =
      body (front ++ [String.ofList (clean message.toList cause.toList) ++ " *", cause]) ++
        note true := by
  set kept := clean message.toList cause.toList
  have hclean : cleanAll ((front ++ [message, cause]).map String.toList) =
      (front.map String.toList).map (·, false) ++ [(kept, true), (cause.toList, false)] := by
    rw [Uncut, List.map_append] at h
    rw [List.map_append]
    refine (cleanAll_append h _).trans (congrArg _ ?_)
    change [(kept, kept.length != message.toList.length), (cause.toList, false)] = _
    rw [hcut.length_bne]
  have hlines : ((front.map String.toList).map (·, false) ++
      [(kept, true), (cause.toList, false)]).filterMap shown? =
        front ++ [String.ofList kept ++ " *", cause] := by
    have hshown : shown? (kept, true) = some (String.ofList kept ++ " *") := by
      simp [shown?, hkept]
    rw [List.filterMap_append, filterMap_shown hne, List.filterMap_cons_some hshown,
      List.filterMap_cons_some (shown_unchanged hcause), List.filterMap_nil]
  have hmarked : ((front.map String.toList).map (·, false) ++
      [(kept, true), (cause.toList, false)]).any (fun m => m.2 && !m.1.isEmpty) = true := by
    simp [hkept]
  have hshown : (front ++ [String.ofList kept ++ " *", cause]).isEmpty = false := by simp
  simp only [report, hclean, hlines, hmarked, hshown]
  rfl

/-- Whether something is taken from a text that ends a message without being enclosed. The
space before an empty text is taken too. -/
def Clipped (text cause : String) : Prop := text = "" ∨ Cut text.toList cause.toList

/-- Whether a text shows another one somewhere. -/
def Includes (text part : String) : Prop := ∃ before after, text = before ++ part ++ after

theorem Includes.append {text part : String} (h : Includes text part) (front back : String) :
    Includes (front ++ text ++ back) part := by
  obtain ⟨before, after, rfl⟩ := h
  exact ⟨front ++ before, after ++ back, by simp only [String.append_assoc]⟩

theorem Includes.trans {a b c : String} (h : Includes a b) (h' : Includes b c) : Includes a c := by
  obtain ⟨before, after, rfl⟩ := h
  exact h'.append before after

theorem body_cons (message : String) (causes : List String) :
    ∃ heading, body (message :: causes) = message ++ heading ++ causeLines 1 causes := by
  match causes with
  | [] => exact ⟨"\n", String.append_empty.symm⟩
  | [cause] =>
      exact ⟨"\n\nCaused by this error:\n", by
        rw [causeLines, causeLines, String.append_empty]
        rfl⟩
  | _ :: _ :: _ => exact ⟨_, rfl⟩

theorem causeLines_includes {messages : List String} {message : String} (h : message ∈ messages)
    (first : Nat) : Includes (causeLines first messages) message := by
  induction messages generalizing first with
  | nil => cases h
  | cons m rest ih =>
      rcases List.mem_cons.1 h with rfl | h
      · exact ⟨Numeral.padLeft 3 (Numeral.decimal first) ++ ": ",
          "\n" ++ causeLines (first + 1) rest, by
            simp only [causeLines, causeLine, String.append_assoc]⟩
      · have hrest := (ih h (first + 1)).append (causeLine first m) ""
        rwa [String.append_empty] at hrest

/-- The body shows each message of a chain in full. -/
theorem body_includes {chain : List String} {message : String} (h : message ∈ chain) :
    Includes (body chain) message := by
  cases chain with
  | nil => cases h
  | cons m causes =>
      obtain ⟨heading, hbody⟩ := body_cons m causes
      rw [hbody]
      rcases List.mem_cons.1 h with rfl | h
      · exact ⟨"", heading ++ causeLines 1 causes, by
          simp only [String.append_assoc, String.empty_append]⟩
      · have hcause := (causeLines_includes h 1).append (m ++ heading) ""
        rwa [String.append_empty] at hcause

theorem causeLines_concat (first : Nat) (messages : List String) (last : String) :
    ∃ before, causeLines first (messages ++ [last]) = before ++ ": " ++ last ++ "\n" := by
  induction messages generalizing first with
  | nil => exact ⟨Numeral.padLeft 3 (Numeral.decimal first), String.append_empty⟩
  | cons m rest ih =>
      obtain ⟨before, hbefore⟩ := ih (first + 1)
      exact ⟨causeLine first m ++ before, by
        simp only [List.cons_append, causeLines, hbefore, String.append_assoc]⟩

theorem body_concat (front : List String) (message last : String) :
    ∃ before, body (front ++ [message, last]) = before ++ ": " ++ last ++ "\n" := by
  obtain ⟨m, causes, hfront⟩ :=
    List.exists_cons_of_ne_nil (List.append_ne_nil_of_right_ne_nil front (List.cons_ne_nil message []))
  obtain ⟨heading, hbody⟩ := body_cons m (causes ++ [last])
  obtain ⟨before, hbefore⟩ := causeLines_concat 1 causes last
  refine ⟨m ++ heading ++ before, ?_⟩
  rw [List.append_cons, hfront, List.cons_append, hbody, hbefore]
  simp only [String.append_assoc]

theorem note_ends (marked : Bool) : ['.', '\n'] <:+ (note marked).toList := by
  unfold note
  rw [String.toList_append]
  refine List.IsSuffix.trans ?_ (List.suffix_append _ _)
  simp only [String.reduceToList]
  decide

/-- Only a body whose last message ends with a full stop ends as a note does. -/
theorem body_ne_noted {cause : String} (h : '.' ∉ cause.toList.getLast?) (front : List String)
    (message text : String) (marked : Bool) :
    body (front ++ [message, cause]) ≠ text ++ note marked := by
  intro heq
  obtain ⟨before, hbody⟩ := body_concat front message cause
  obtain ⟨last, hlast, hends⟩ : ∃ last, last ≠ '.' ∧
      [last, '\n'] <:+ (body (front ++ [message, cause])).toList := by
    simp only [hbody, String.toList_append]
    rcases List.eq_nil_or_concat' cause.toList with hcause | ⟨init, last, hcause⟩
    · exact ⟨' ', by decide, before.toList ++ [':'], by simp [hcause]⟩
    · refine ⟨last, fun he => h ?_, before.toList ++ ": ".toList ++ init, by simp [hcause]⟩
      rw [hcause, he, List.getLast?_concat]
      rfl
  have hnote : ['.', '\n'] <:+ (body (front ++ [message, cause])).toList := by
    rw [heq, String.toList_append]
    exact (note_ends marked).trans (List.suffix_append _ _)
  have hsame := (List.suffix_of_suffix_length_le hends hnote (Nat.le_refl _)).eq_of_length rfl
  exact hlast (List.cons.inj hsame).1

/-- How a report falls short of a message and its only cause: an empty cause is not shown,
and of a message that loses its end only the front is shown, or nothing. -/
inductive Shortened (message cause : String) : String → Prop
  | unshown (h : cause = "") : Shortened message cause (body [message] ++ note false)
  | cut (kept lost : String) (h : kept ++ lost = message) (hkept : kept ≠ "") (hlost : lost ≠ "") :
      Shortened message cause (body [kept ++ " *", cause] ++ note true)
  | swallowed : Shortened message cause (body [cause] ++ note false)

theorem Shortened.ne_body {message cause text : String} (h : Shortened message cause text)
    (hc : '.' ∉ cause.toList.getLast?) : text ≠ body [message, cause] := by
  cases h with
  | unshown => exact (body_ne_noted hc [] message _ false).symm
  | cut => exact (body_ne_noted hc [] message _ true).symm
  | swallowed => exact (body_ne_noted hc [] message _ false).symm

theorem shortened_of_empty {message : String} (hne : message ≠ "")
    (hfirm : ∀ last ∈ message.toList.getLast?, ¬ Loose last) :
    Shortened message "" (report [message, ""]) := by
  have hcut : ¬ Cut message.toList [] := by
    rintro (⟨hnil, -⟩ | ⟨last, hl, hloose⟩)
    · exact hnil rfl
    · exact hfirm last hl hloose
  have hclean : cleanAll ([message, ""].map String.toList) =
      [(message.toList, false), ([], false)] := by
    simp [cleanAll, clean_eq_self_iff.2 hcut]
  have hreport : report [message, ""] = body [message] ++ note false := by
    have hm : message.toList ≠ [] := mt String.toList_eq_nil_iff.1 hne
    simp only [report, hclean]
    simp [shown?, hm]
  rw [hreport]
  exact .unshown rfl

theorem shortened_of_cut {message cause : String} (hc : cause ≠ "")
    (hcut : Cut message.toList cause.toList) :
    Shortened message cause (report [message, cause]) := by
  obtain ⟨lost, hlost⟩ := clean_isPrefix message.toList cause.toList
  by_cases hkept : clean message.toList cause.toList = []
  · have hclean : cleanAll ([message, cause].map String.toList) =
        [([], true), (cause.toList, false)] := by
      change [(clean message.toList cause.toList, _), (cause.toList, false)] = _
      rw [hcut.length_bne, hkept]
    have hreport : report [message, cause] = body [cause] ++ note false := by
      have hcause : cause.toList ≠ [] := mt String.toList_eq_nil_iff.1 hc
      simp only [report, hclean]
      simp [shown?, hcause]
    rw [hreport]
    exact .swallowed
  · have hreport := report_of_cut (Uncut.single message) List.not_mem_nil hc hcut hkept
    rw [List.nil_append] at hreport
    rw [hreport]
    refine .cut _ (String.ofList lost) ?_ ?_ ?_
    · rw [← String.ofList_append, hlost, String.ofList_toList]
    · simpa using hkept
    · intro hnone
      obtain rfl : lost = [] := by simpa using hnone
      rw [List.append_nil] at hlost
      exact clean_eq_self_iff.1 hlost hcut

end TreeCompare.Console
