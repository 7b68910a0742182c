import Mathlib.Data.List.TakeWhile
import Runbook.Pipeline.Promotion
import Runbook.Proofs.Text.Slice
import Runbook.Proofs.Text.Trim

/-!
# Calls by byte offsets

A promotion may cut the name and the value of an option out of its word, at the byte offset of its
first `=`, and add an argument only behind a check that its name is new. Then no cut fails and no
argument is refused, so it finds what the promotion that goes through the characters finds
(`promoteByOffset_eq`).
-/

namespace Runbook

open Text (BadOffset byteLength)

/-- What a promotion by offsets must not meet. -/
inductive Crash where
  /-- A cut that fails. -/
  | offset (e : BadOffset)
  /-- An argument that is there already. -/
  | misuse (m : Misuse)

/-- A word of the form `name=value`, cut at its first `=`. -/
def splitOptionByOffset? (word : String) : Except BadOffset (Option (String × String)) :=
  match Text.find? (· == '=') word.toList with
  | none => .ok none
  | some equals => do
    let (name, _) ← Text.cut equals word.toList
    if name ≠ [] ∧ name.all isOptionChar then
      let (_, value) ← Text.cut (equals + 1) word.toList
      return some (String.ofList name, String.ofList value)
    else return none

theorem splitOptionByOffset?_eq (word : String) :
    splitOptionByOffset? word = .ok (splitOption? word) := by
  unfold splitOptionByOffset? splitOption?
  cases hfind : Text.find? (· == '=') word.toList with
  | none =>
    have hdrop : word.toList.dropWhile (· ≠ '=') = [] := by
      apply List.dropWhile_eq_nil_iff.2
      intro c hc
      simpa using Text.find?_eq_none hfind c hc
    rw [hdrop]
  | some equals =>
    obtain ⟨name, c, value, hword, rfl, hname, hc⟩ := Text.exists_of_find? hfind
    obtain rfl : c = '=' := by simpa using hc
    have hfirst : '=' ∉ name := fun hmem => absurd (hname '=' hmem) (by decide)
    dsimp only
    rw [hword, Text.takeWhile_ne_append hfirst, Text.dropWhile_ne_append hfirst, Text.cut_append,
      Text.cut_succ (by decide)]
    show (if name ≠ [] ∧ name.all isOptionChar = true then _ else _) = _
    split <;> rfl

/-- The arguments when the options `words` follow those in `args`: a name that comes a second time
is found before its argument is added. -/
def gatherByOffset (args : Arguments) :
    List String → Except Crash (Except String (Option Arguments))
  | [] => .ok (.ok (some args))
  | word :: rest =>
    match splitOptionByOffset? word with
    | .error e => .error (.offset e)
    | .ok none => .ok (.ok none)
    | .ok (some (name, value)) =>
      if args.contains name then .ok (.error name)
      else
        match args.add name (Shell.unquote value) with
        | .error m => .error (.misuse m)
        | .ok more => gatherByOffset more rest

theorem gatherByOffset_eq (args : Arguments) (words : List String) :
    gatherByOffset args words = .ok (gatherOptions args words) := by
  induction words generalizing args with
  | nil => rfl
  | cons word words ih =>
    rw [gatherByOffset, gatherOptions, splitOptionByOffset?_eq]
    cases splitOption? word with
    | none => rfl
    | some option =>
      obtain ⟨name, value⟩ := option
      dsimp only
      unfold Arguments.add
      by_cases hold : args.contains name = true
      · rw [if_pos hold, if_pos hold]
      · rw [if_neg hold, if_neg hold]
        exact ih _

/-- The procedure call that an item stands for. -/
def Item.promoteByOffset (x : Item) (known : String → Bool) :
    Except Crash (Except DuplicatedOption (Option Item)) :=
  match x.action with
  | .shell line head words =>
    if known head then
      match gatherByOffset .empty words with
      | .ok (.ok args) => .ok (.ok (args.map (.call head)))
      | .ok (.error option) => .ok (.error ⟨head, option, line⟩)
      | .error e => .error e
    else .ok (.ok none)
  | _ => .ok (.ok none)

/-- **Options.** Every cut in a word lies between two characters of it, and no argument is added
under a name that is there. -/
theorem Item.promoteByOffset_eq (x : Item) (known : String → Bool) :
    x.promoteByOffset known = .ok (x.promote known) := by
  unfold promoteByOffset promote
  cases x.action with
  | shell line head words =>
    dsimp only
    rw [gatherByOffset_eq]
    split
    · cases gatherOptions .empty words <;> rfl
    · rfl
  | call name args => rfl
  | block i => rfl

end Runbook
