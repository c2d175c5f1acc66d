import MonkeyLang.Repl
import Mathlib.Data.List.Basic

/-!
The lines of a text: what they are is settled by their own form and by the text that they join to.
-/

namespace MonkeyLang.Repl

/-- Every line ends with its only newline, but for the last one, which may have none. -/
inductive Lined : List (List Char) → Prop
  | nil : Lined []
  | last {text : List Char} : text ≠ [] → '\n' ∉ text → Lined [text]
  | cons {text : List Char} {others : List (List Char)} :
      '\n' ∉ text → Lined others → Lined ((text ++ ['\n']) :: others)

theorem splitLines_of_notMem {line : List Char} (h : '\n' ∉ line) (text : List Char) :
    splitLines (line ++ '\n' :: text) = (line ++ ['\n']) :: splitLines text := by
  induction line with
  | nil => rfl
  | cons c line ih =>
    obtain ⟨hc, hline⟩ := not_or.mp (mt List.mem_cons.mpr h)
    rw [List.cons_append, splitLines, if_neg (by simpa using Ne.symm hc), ih hline]
    rfl

theorem splitLines_last {line : List Char} (hne : line ≠ []) (h : '\n' ∉ line) :
    splitLines line = [line] := by
  induction line with
  | nil => exact absurd rfl hne
  | cons c line ih =>
    obtain ⟨hc, hline⟩ := not_or.mp (mt List.mem_cons.mpr h)
    rw [splitLines, if_neg (by simpa using Ne.symm hc)]
    cases line with
    | nil => rfl
    | cons => rw [ih (List.cons_ne_nil _ _) hline]

namespace Lined

variable {lines : List (List Char)}

theorem splitLines_flatten (h : Lined lines) : splitLines lines.flatten = lines := by
  induction h with
  | nil => rfl
  | last hne htext => rw [List.flatten_singleton, splitLines_last hne htext]
  | cons htext _ ih =>
    rw [List.flatten_cons, List.append_assoc, List.singleton_append, splitLines_of_notMem htext, ih]

/-- A blank line may stand in the place of any line. -/
theorem set (h : Lined lines) (i : Nat) : Lined (lines.set i ['\n']) := by
  induction h generalizing i with
  | nil => exact .nil
  | last hne htext =>
    cases i with
    | zero => exact .cons List.not_mem_nil .nil
    | succ i => exact .last hne htext
  | cons htext hothers ih =>
    cases i with
    | zero => exact .cons List.not_mem_nil hothers
    | succ i => exact .cons htext (ih i)

end Lined

theorem lined_splitLines (text : List Char) :
    Lined (splitLines text) ∧ (splitLines text).flatten = text := by
  induction text with
  | nil => exact ⟨.nil, rfl⟩
  | cons c text ih =>
    obtain ⟨hlined, hflatten⟩ := ih
    by_cases hc : c = '\n'
    · subst hc
      exact ⟨.cons List.not_mem_nil hlined, congrArg _ hflatten⟩
    · rw [splitLines, if_neg (by simpa using hc)]
      generalize splitLines text = lines at hlined hflatten
      subst hflatten
      have hcons : ∀ {line}, '\n' ∉ line → '\n' ∉ c :: line :=
        fun hline ↦ List.not_mem_cons_of_ne_of_not_mem (Ne.symm hc) hline
      cases hlined with
      | nil => exact ⟨.last (List.cons_ne_nil _ _) (hcons List.not_mem_nil), rfl⟩
      | last _ hline => exact ⟨.last (List.cons_ne_nil _ _) (hcons hline), rfl⟩
      | cons hline hothers => exact ⟨.cons (hcons hline) hothers, rfl⟩

/-- The lines have this form, and are the text one behind the other. -/
def AreLines (lines : List String) (text : String) : Prop :=
  Lined (lines.map String.toList) ∧ String.join lines = text

theorem join_ofList (lines : List (List Char)) :
    String.join (lines.map String.ofList) = String.ofList lines.flatten := by
  induction lines with
  | nil => rfl
  | cons line others ih =>
    rw [List.map_cons, String.join_cons, ih, List.flatten_cons, String.ofList_append]

theorem areLines_iff {lines : List String} {text : String} :
    AreLines lines text ↔ lines = linesOf text := by
  have hback : (lines.map String.toList).map String.ofList = lines := by
    simp [Function.comp_def]
  constructor
  · rintro ⟨hlined, rfl⟩
    rw [← hback, join_ofList, linesOf, String.toList_ofList, hlined.splitLines_flatten]
  · rintro rfl
    obtain ⟨hlined, hflatten⟩ := lined_splitLines text.toList
    refine ⟨?_, ?_⟩
    · rw [linesOf, List.map_map]
      simpa [Function.comp_def] using hlined
    · rw [linesOf, join_ofList, hflatten, String.ofList_toList]

/-- With a blank line in the place of one of its lines, a text has the other ones. -/
theorem linesOf_set (text : String) (i : Nat) :
    linesOf (String.join ((linesOf text).set i "\n")) = (linesOf text).set i "\n" := by
  have hlined := (areLines_iff.mpr (rfl : linesOf text = _)).1
  refine (areLines_iff.mp ⟨?_, rfl⟩).symm
  rw [List.map_set]
  exact hlined.set i

end MonkeyLang.Repl
