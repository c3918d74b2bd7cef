import TreeCompare.Proofs.Fault.Console
import TreeCompare.Proofs.Files.Errors

/-!
# Messages that end with a path

A few messages are a fixed text, a space and the path that failed, with the system's
message below them. The two kinds of fixed texts have nothing in common: no end of the
one is how the other begins. So what is cut from such a message is decided by the path
alone, and the cut stays behind the fixed text.
-/
namespace TreeCompare

open Console (Apart Clipped Cut Loose Uncut)
open IoError (ofFiles)

/-- The texts that come before a path at the end of a message. -/
def leads : List String :=
  ["Failed to access the root directory", "Failed to list directory", "Failed to open",
    "Failed to read"]

/-- The messages that hold no path and stand above others. -/
def plain : List String :=
  ["Failed to fingerprint a file", "Failed to write the diff report",
    "Critical failure encountered while scanning the source tree",
    "Critical failure encountered while scanning the destination tree"]

/-- The characters that the system's messages about files begin with. -/
def initials : List Char := ['N', 'P', 'I', 'F', 'T', 'f']

theorem lead_begins {lead : String} (h : lead ∈ leads) :
    ∃ rest, lead.toList = 'F' :: 'a' :: rest ∧ ∀ x ∈ initials, x ∉ 'a' :: rest ++ [' '] := by
  revert lead
  simp only [leads, List.forall_mem_cons, String.reduceToList, List.cons.injEq]
  simp [initials]

theorem lead_ne_empty {lead : String} (h : lead ∈ leads) : lead ≠ "" := by
  obtain ⟨rest, hrest, -⟩ := lead_begins h
  rintro rfl
  cases hrest

theorem lead_firm {lead : String} (h : lead ∈ leads) :
    ∀ last ∈ lead.toList.getLast?, ¬ Loose last := by
  revert lead
  simp only [leads, List.forall_mem_cons, String.reduceToList]
  simp
  decide

theorem plain_ne_empty {message : String} (h : message ∈ plain) : message ≠ "" := by
  rintro rfl
  revert h
  decide

theorem plain_firm {message : String} (h : message ∈ plain) :
    ∀ last ∈ message.toList.getLast?, ¬ Loose last := by
  revert message
  simp only [plain, List.forall_mem_cons, String.reduceToList]
  simp
  decide

/-- The system's messages about files. -/
def texts : List String :=
  ["No such file or directory (os error 2)", "No such device or address (os error 6)",
    "Permission denied (os error 13)", "Not a directory (os error 20)",
    "Is a directory (os error 21)", "File name too long (os error 36)",
    "Too many levels of symbolic links (os error 40)",
    "file name contained an unexpected NUL byte"]

theorem message_mem_texts {cause : IoError} (h : cause ∈ ofFiles) : cause.message ∈ texts := by
  have htexts : ofFiles.map IoError.message = texts := rfl
  rw [← htexts]
  exact List.mem_map_of_mem h

theorem message_begins {cause : IoError} (h : cause ∈ ofFiles) :
    ∃ x y rest, cause.message.toList = x :: y :: rest ∧ x ∈ initials ∧ y ≠ 'a' := by
  have hm := message_mem_texts h
  generalize cause.message = m at hm
  revert m
  simp only [texts, List.forall_mem_cons, String.reduceToList, List.cons.injEq]
  simp [initials]

theorem message_ends {cause : IoError} (h : cause ∈ ofFiles) :
    '.' ∉ cause.message.toList.getLast? := by
  have hm := message_mem_texts h
  generalize cause.message = m at hm
  revert m
  simp only [texts, List.forall_mem_cons, String.reduceToList]
  simp

theorem message_ne_empty {cause : IoError} (h : cause ∈ ofFiles) : cause.message ≠ "" := by
  obtain ⟨x, y, rest, hm, -, -⟩ := message_begins h
  rintro he
  rw [he] at hm
  cases hm

/-- No end of a lead is how a message about files begins. -/
theorem apart_lead {lead : String} (hl : lead ∈ leads) {cause : IoError} (hc : cause ∈ ofFiles) :
    Apart (lead.toList ++ [' ']) cause.message.toList := by
  obtain ⟨rest, hlead, hinitials⟩ := lead_begins hl
  obtain ⟨x, y, more, hmessage, hx, hy⟩ := message_begins hc
  intro s hs hp
  rw [hlead] at hs
  rw [hmessage] at hp
  cases s with
  | nil => rfl
  | cons c s =>
      obtain ⟨rfl, hmore⟩ := List.cons_prefix_cons.1 hp
      -- an end that begins like a message could only be the lead itself
      rcases List.suffix_cons_iff.1 hs with hs | hs
      · obtain ⟨rfl, rfl⟩ := List.cons.inj hs
        obtain ⟨ha, -⟩ := List.cons_prefix_cons.1 hmore
        exact absurd ha.symm hy
      · exact absurd (hs.subset List.mem_cons_self) (hinitials c hx)

theorem lead_isPrefix (lead text : String) : lead.toList <+: (lead ++ " " ++ text).toList := by
  rw [String.append_assoc, String.toList_append]
  exact List.prefix_append _ _

/-- A path at the end of a message is clipped exactly if the message is cut. -/
theorem cut_iff_clipped {lead : String} (hl : lead ∈ leads) {cause : IoError}
    (hc : cause ∈ ofFiles) (text : String) :
    Cut (lead ++ " " ++ text).toList cause.message.toList ↔ Clipped text cause.message := by
  have happart := apart_lead hl hc
  have hlist : (lead ++ " " ++ text).toList = (lead.toList ++ [' ']) ++ text.toList := by
    simp only [String.toList_append]
    rfl
  rw [hlist, Clipped]
  by_cases ht : text = ""
  · rw [ht]
    exact iff_of_true (.inr ⟨' ', by simp, by decide⟩) (.inl rfl)
  · rw [Console.cut_append_iff happart (mt String.toList_eq_nil_iff.1 ht)]
    exact ⟨.inr, fun h => h.resolve_left ht⟩

section Exposed

variable {front : List String} {lead text : String} {cause : IoError}

/-- A path at the end of a message is shown whole with its chain if it is not clipped. -/
theorem report_of_not_clipped (hl : lead ∈ leads) (hc : cause ∈ ofFiles) (hne : "" ∉ front)
    (hu : Uncut (front ++ [lead ++ " " ++ text])) (h : ¬ Clipped text cause.message) :
    Console.report (front ++ [lead ++ " " ++ text, cause.message]) =
      Console.body (front ++ [lead ++ " " ++ text, cause.message]) := by
  refine Console.report_of_uncut ?_ fun hempty => ?_
  · rw [Uncut, List.map_append] at hu ⊢
    exact List.isChain_append_cons_cons.2
      ⟨hu, mt (cut_iff_clipped hl hc text).1 h, List.isChain_singleton _⟩
  · rcases List.mem_append.1 hempty with he | he
    · exact hne he
    · rcases List.mem_pair.1 he with he | he
      · have hlead := lead_isPrefix lead text
        rw [← he] at hlead
        exact lead_ne_empty hl (String.toList_eq_nil_iff.1 (List.prefix_nil.1 hlead))
      · exact message_ne_empty hc he.symm

/-- The line of a clipped path is marked and has lost an end, but nothing of what stands
before the path. All other lines are as they were. -/
theorem report_of_clipped (hl : lead ∈ leads) (hc : cause ∈ ofFiles) (hne : "" ∉ front)
    (hu : Uncut (front ++ [lead ++ " " ++ text])) (h : Clipped text cause.message) :
    ∃ kept lost, kept ++ lost = " " ++ text ∧ lost ≠ "" ∧
      Console.report (front ++ [lead ++ " " ++ text, cause.message]) =
        Console.body (front ++ [lead ++ kept ++ " *", cause.message]) ++ Console.note true := by
  have hcut := (cut_iff_clipped hl hc text).2 h
  have hlead : (lead ++ " " ++ text).toList = lead.toList ++ ' ' :: text.toList := by
    rw [String.append_assoc, String.toList_append, String.toList_append]
    rfl
  have hfront : lead.toList ++ [' '] <+: (lead ++ " " ++ text).toList :=
    ⟨text.toList, by rw [hlead]; simp⟩
  obtain ⟨more, hmore⟩ := Console.prefix_clean (apart_lead hl hc) (lead_firm hl) hfront
  obtain ⟨taken, htaken⟩ :=
    Console.clean_isPrefix (lead ++ " " ++ text).toList cause.message.toList
  have hsplit : more ++ taken = ' ' :: text.toList := by
    rw [← hmore, hlead, List.append_assoc] at htaken
    exact List.append_cancel_left htaken
  have hkept : lead ++ String.ofList more =
      String.ofList (Console.clean (lead ++ " " ++ text).toList cause.message.toList) := by
    rw [← hmore, String.ofList_append, String.ofList_toList]
  refine ⟨String.ofList more, String.ofList taken, ?_, fun hnone => ?_, ?_⟩
  · rw [← String.ofList_append, hsplit]
    exact String.toList_injective (by simp)
  · obtain rfl : taken = [] := by simpa using hnone
    rw [List.append_nil] at htaken
    exact Console.clean_eq_self_iff.1 htaken hcut
  · rw [hkept]
    refine Console.report_of_cut hu hne (message_ne_empty hc) hcut ?_
    rw [← hmore]
    exact List.append_ne_nil_of_left_ne_nil (mt String.toList_eq_nil_iff.1 (lead_ne_empty hl)) _

end Exposed

end TreeCompare
