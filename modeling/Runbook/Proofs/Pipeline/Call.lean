import Mathlib.Data.List.Forall2
import Runbook.Pipeline.Promotion
import Runbook.Proofs.Document.Header
import Runbook.Proofs.Shell.Words

/-!
# Procedure calls in a document

A call is written as a line of words: the name of the procedure, and one word `name=value` for each
argument, the value quoted. Which commands stand for a call is said by their words alone
(`Item.promote_eq_some_iff`). The scan reads the line of a call as the words it was written from, so
the line stands for the call (`promote_callLine`).
-/

namespace Runbook

open Shell (posix)
open Document (IsProcedureName)

/-! ## Well-named arguments -/

/-- A name that an option can have. -/
def IsOptionName (name : String) : Prop :=
  name.toList.isEmpty = false ∧ name.toList.all isOptionChar = true

instance (name : String) : Decidable (IsOptionName name) :=
  inferInstanceAs (Decidable (name.toList.isEmpty = false ∧ name.toList.all isOptionChar = true))

/-- Arguments that options can give: their names are names of options, each used once. -/
structure Arguments.WellNamed (a : Arguments) : Prop where
  names : ∀ e ∈ a.entries, IsOptionName e.1
  distinct : a.names.Nodup

instance (a : Arguments) : Decidable a.WellNamed :=
  decidable_of_iff ((∀ e ∈ a.entries, IsOptionName e.1) ∧ a.names.Nodup)
    ⟨fun h => ⟨h.1, h.2⟩, fun h => ⟨h.names, h.distinct⟩⟩

theorem isPlain_of_isOptionChar {c : Char} (h : isOptionChar c = true) :
    Shell.isPlain c = true := by
  unfold isOptionChar at h
  unfold Shell.isPlain
  rcases Bool.or_eq_true_iff.1 h with h | h
  · rw [h]
    rfl
  · rw [eq_of_beq h]
    decide

theorem IsOptionName.isPlain {name : String} (h : IsOptionName name) :
    ∀ c ∈ name.toList, Shell.isPlain c = true :=
  fun c hc => isPlain_of_isOptionChar (List.all_eq_true.1 h.2 c hc)

theorem IsOptionName.equals_not_mem {name : String} (h : IsOptionName name) :
    '=' ∉ name.toList := by
  intro hmem
  have := List.all_eq_true.1 h.2 '=' hmem
  revert this
  decide

/-! ## Words of a call -/

namespace Arguments

/-- The text of an argument as a word. -/
def optionText (e : String × String) : String :=
  e.1 ++ "=" ++ posix e.2

/-- An argument as a word: its name and `=` bare, then the quoted value. -/
def optionWord (e : String × String) : Shell.Word :=
  ⟨(e.1.toList ++ ['=']).map .bare ++ (Shell.Word.ofValue e.2.toList).segments⟩

theorem source_optionWord (e : String × String) :
    (optionWord e).source = e.1.toList ++ '=' :: (Shell.Word.ofValue e.2.toList).source := by
  have hbare := Shell.Word.source_ofBare (e.1.toList ++ ['='])
  unfold Shell.Word.source Shell.Word.ofBare at hbare
  unfold Shell.Word.source optionWord
  rw [List.flatMap_append, hbare, List.append_assoc]
  rfl

theorem text_optionWord (e : String × String) : (optionWord e).text = optionText e := by
  unfold Shell.Word.text
  rw [source_optionWord]
  apply String.toList_injective
  simp [optionText, posix, Shell.Word.text]

theorem joins_optionWord {e : String × String} (h : IsOptionName e.1) : (optionWord e).Joins := by
  constructor
  · simp [optionWord]
  · intro x hx
    rcases List.mem_append.1 hx with hx | hx
    · obtain ⟨c, hc, rfl⟩ := List.mem_map.1 hx
      apply Shell.Segment.joins_bare
      apply Shell.isWordChar_of_isPlain
      rcases List.mem_append.1 hc with hc | hc
      · exact h.isPlain c hc
      · rw [List.mem_singleton.1 hc]
        decide
    · exact Shell.joins_ofValue _ x hx

/-- The arguments behind the name of a procedure are their words, each behind a blank. -/
theorem toList_render (a : Arguments) :
    (a.render posix).toList = Shell.spaced (a.entries.map optionWord) := by
  unfold render
  induction a.entries with
  | nil => rfl
  | cons e es ih =>
    rw [List.map_cons, String.join_cons, String.toList_append, ih, List.map_cons,
      Shell.spaced_cons, source_optionWord]
    simp [entryText, posix, Shell.Word.text]

end Arguments

/-! ## The line of a call -/

/-- The line of a call: the name of the procedure with the arguments behind it. -/
def callLine (name : String) (args : Arguments) : String :=
  name ++ args.render posix

theorem text?_call (name : String) (args : Arguments) :
    (Item.call name args).text? posix = some (callLine name args) := rfl

/-- The words of a call: the name of the procedure, and one word for each argument. -/
def callWords (name : String) (args : Arguments) : List Shell.Word :=
  .ofBare name.toList :: args.entries.map Arguments.optionWord

theorem toList_callLine (name : String) (args : Arguments) :
    (callLine name args).toList =
      (Shell.Word.ofBare name.toList).source ++
        Shell.spaced (args.entries.map Arguments.optionWord) := by
  unfold callLine
  rw [String.toList_append, Arguments.toList_render, Shell.Word.source_ofBare]

section Call

variable {name : String} {args : Arguments}

theorem lineFeed_not_mem_of_isPlain {cs : List Char} (h : ∀ c ∈ cs, Shell.isPlain c = true) :
    '\n' ∉ cs := by
  intro hmem
  have := h '\n' hmem
  revert this
  decide

theorem joins_name (h : IsProcedureName name) : (Shell.Word.ofBare name.toList).Joins := by
  constructor
  · simpa [Shell.Word.ofBare] using h.ne_nil
  · intro x hx
    obtain ⟨c, hc, rfl⟩ := List.mem_map.1 hx
    exact Shell.Segment.joins_bare (Shell.isWordChar_of_isPlain (h.isPlain c hc))

theorem joins_options (hargs : args.WellNamed) :
    ∀ w ∈ args.entries.map Arguments.optionWord, w.Joins := by
  intro w hw
  obtain ⟨e, he, rfl⟩ := List.mem_map.1 hw
  exact Arguments.joins_optionWord (hargs.names e he)

/-- The line of a call stands on one row. -/
theorem lineFeed_not_mem_callLine (hname : IsProcedureName name) (hargs : args.WellNamed) :
    '\n' ∉ (callLine name args).toList := by
  rw [toList_callLine, Shell.Word.source_ofBare, List.mem_append, not_or]
  refine ⟨lineFeed_not_mem_of_isPlain hname.isPlain, ?_⟩
  unfold Shell.spaced
  rw [List.mem_flatMap]
  rintro ⟨w, hw, hmem⟩
  obtain ⟨e, he, rfl⟩ := List.mem_map.1 hw
  rw [Arguments.source_optionWord, List.mem_cons, List.mem_append, List.mem_cons] at hmem
  rcases hmem with hmem | hmem | hmem | hmem
  · exact absurd hmem (by decide)
  · exact lineFeed_not_mem_of_isPlain (hargs.names e he).isPlain hmem
  · exact absurd hmem (by decide)
  · exact Shell.lineFeed_not_mem_ofValue _ hmem

theorem trim_callLine (hname : IsProcedureName name) (args : Arguments) :
    Text.trim (callLine name args).toList = (callLine name args).toList := by
  rw [toList_callLine, Shell.Word.source_ofBare]
  apply Text.trim_eq_self
  · intro c hc
    rw [List.head?_append, Option.or_of_isSome (List.isSome_head?.2 hname.ne_nil)] at hc
    exact hname.not_isBlank c (List.mem_of_mem_head? hc)
  · apply Shell.getLast?_append_spaced
    · intro c hc
      exact hname.not_isBlank c (List.mem_of_getLast? hc)
    · intro w hw
      obtain ⟨e, -, rfl⟩ := List.mem_map.1 hw
      obtain ⟨c, hc, hblank⟩ := Shell.getLast?_ofValue e.2.toList
      refine ⟨c, ?_, hblank⟩
      rw [Arguments.source_optionWord, List.getLast?_append, List.getLast?_cons, hc]
      rfl

theorem trimmed_callLine (hname : IsProcedureName name) (args : Arguments) :
    Text.trimmed (callLine name args) = callLine name args := by
  unfold Text.trimmed
  rw [trim_callLine hname, String.ofList_toList]

/-- The line of a call is one statement, and its words are those of the call. -/
theorem tokenize_callLine (hname : IsProcedureName name) (hargs : args.WellNamed) :
    Shell.tokenize (callLine name args) =
      .complete [⟨callLine name args, callWords name args⟩] := by
  have hscan := Shell.scan_words (joins_name hname) (joins_options hargs)
  unfold Shell.tokenize
  rw [toList_callLine, hscan, ← toList_callLine, trim_callLine hname, String.ofList_toList]
  rfl

theorem ofLine_callLine (hname : IsProcedureName name) (hargs : args.WellNamed) :
    Item.ofLine (callLine name args) =
      Item.shell (callLine name args) name (args.entries.map Arguments.optionText) := by
  have htexts : (callWords name args).map Shell.Word.text =
      name :: args.entries.map Arguments.optionText := by
    unfold callWords
    rw [List.map_cons, List.map_map]
    congr 1
    · unfold Shell.Word.text
      rw [Shell.Word.source_ofBare, String.ofList_toList]
    · apply List.map_congr_left
      intro e _
      exact Arguments.text_optionWord e
  unfold Item.ofLine
  simp only [trimmed_callLine hname, tokenize_callLine hname hargs]
  unfold Item.ofStatements
  simp only [List.map_cons, List.map_nil, Shell.Statement.wordTexts, htexts, List.intercalate,
    List.intersperse, List.flatten_cons, List.flatten_nil, List.append_nil]

end Call

/-! ## Options -/

theorem splitOption?_append {name : String} (h : IsOptionName name) (text : String) :
    splitOption? (name ++ "=" ++ text) = some (name, text) := by
  have hword : (name ++ "=" ++ text).toList = name.toList ++ '=' :: text.toList := by simp
  unfold splitOption?
  simp only [hword, Text.takeWhile_ne_append h.equals_not_mem,
    Text.dropWhile_ne_append h.equals_not_mem]
  rw [if_pos ⟨by simpa using h.1, h.2⟩, String.ofList_toList, String.ofList_toList]

/-- An option word is the name of an option, `=`, and the text of its value. -/
theorem splitOption?_eq_some_iff {word name text : String} :
    splitOption? word = some (name, text) ↔ IsOptionName name ∧ word = name ++ "=" ++ text := by
  constructor
  · intro h
    unfold splitOption? at h
    dsimp only at h
    split at h
    · cases h
    next c value hdrop =>
    split at h
    · next hname =>
      obtain ⟨rfl, rfl⟩ := Prod.mk.inj (Option.some.inj h)
      have hc : c = '=' := by
        have hhead := List.head?_dropWhile_not (fun c => decide (c ≠ '=')) word.toList
        rw [hdrop] at hhead
        simpa using hhead
      have hword := List.takeWhile_append_dropWhile (p := fun c => decide (c ≠ '='))
        (l := word.toList)
      rw [hdrop, hc] at hword
      constructor
      · unfold IsOptionName
        rw [String.toList_ofList]
        exact ⟨by simpa using hname.1, hname.2⟩
      · apply String.toList_injective
        simp only [String.toList_append, String.toList_ofList]
        rw [List.append_assoc]
        exact hword.symm
    · cases h
  · rintro ⟨hname, rfl⟩
    exact splitOption?_append hname text

/-- The word gives this argument: its name, `=`, and a text that stands for the value. -/
def IsOption (word : String) (e : String × String) : Prop :=
  IsOptionName e.1 ∧ ∃ text, word = e.1 ++ "=" ++ text ∧ e.2 = Shell.unquote text

section Options

variable {word : String} {words : List String} {e e' : String × String} {a args : Arguments}

theorem IsOption.exists_split (h : IsOption word e) :
    ∃ text, splitOption? word = some (e.1, text) ∧ e.2 = Shell.unquote text := by
  obtain ⟨hname, text, rfl, hvalue⟩ := h
  exact ⟨text, splitOption?_append hname text, hvalue⟩

theorem IsOption.unique (h : IsOption word e) (h' : IsOption word e') : e = e' := by
  obtain ⟨text, hsplit, hvalue⟩ := h.exists_split
  obtain ⟨text', hsplit', hvalue'⟩ := h'.exists_split
  obtain ⟨hname, rfl⟩ := Prod.mk.inj (Option.some.inj (hsplit.symm.trans hsplit'))
  exact Prod.ext hname (hvalue.trans hvalue'.symm)

theorem isOption_optionText (h : IsOptionName e.1) : IsOption (Arguments.optionText e) e :=
  ⟨h, posix e.2, rfl, (Shell.unquote_posix e.2).symm⟩

theorem isOptionName_of_forall₂ {es : List (String × String)} (h : List.Forall₂ IsOption words es) :
    ∀ e ∈ es, IsOptionName e.1 := by
  induction h with
  | nil => simp
  | cons he _ ih => exact List.forall_mem_cons.2 ⟨he.1, ih⟩

end Options

namespace Arguments

variable {a more : Arguments} {name value : String}

theorem contains_iff : a.contains name = true ↔ name ∈ a.names := by
  unfold contains names
  rw [List.any_eq_true, List.mem_map]
  simp

theorem add_eq_ok_iff :
    a.add name value = .ok more ↔ name ∉ a.names ∧ more = ⟨a.entries ++ [(name, value)]⟩ := by
  unfold add
  rw [← contains_iff]
  split
  · next h => simp [h]
  · next h => simp [h, eq_comm]

theorem nodup_of_add (ha : a.names.Nodup) (h : a.add name value = .ok more) : more.names.Nodup := by
  obtain ⟨hnew, rfl⟩ := add_eq_ok_iff.1 h
  unfold names
  rw [List.map_append, List.map_singleton]
  refine List.nodup_append.2 ⟨ha, by simp, fun n hn m hm => ?_⟩
  rw [List.mem_singleton.1 hm]
  rintro rfl
  exact hnew hn

end Arguments

/-! ## Gathering -/

section Gathering

variable {word : String} {words : List String} {e : String × String} {a args : Arguments}

theorem gatherOptions_of_not_isOption (h : ¬∃ e, IsOption word e) :
    gatherOptions a (word :: words) = .ok none := by
  unfold gatherOptions
  cases hsplit : splitOption? word with
  | none => rfl
  | some option =>
    obtain ⟨hname, hword⟩ := splitOption?_eq_some_iff.1 hsplit
    exact absurd ⟨(option.1, Shell.unquote option.2), hname, option.2, hword, rfl⟩ h

theorem gatherOptions_of_isOption (h : IsOption word e) :
    gatherOptions a (word :: words) =
      if e.1 ∈ a.names then .error e.1 else gatherOptions ⟨a.entries ++ [e]⟩ words := by
  obtain ⟨text, hsplit, hvalue⟩ := h.exists_split
  rw [gatherOptions, hsplit]
  dsimp only
  rw [← hvalue]
  by_cases hnew : e.1 ∈ a.names
  · have hadd : a.add e.1 e.2 = .error (.argumentTwice e.1) :=
      if_pos (Arguments.contains_iff.2 hnew)
    rw [hadd, if_pos hnew]
  · have hadd : a.add e.1 e.2 = .ok ⟨a.entries ++ [e]⟩ := Arguments.add_eq_ok_iff.2 ⟨hnew, rfl⟩
    rw [hadd, if_neg hnew]

/-- Arguments are gathered from words that are options with new names, each used once. -/
theorem gatherOptions_eq_some_iff (ha : a.names.Nodup) :
    gatherOptions a words = .ok (some args) ↔
      ∃ es, args = ⟨a.entries ++ es⟩ ∧ List.Forall₂ IsOption words es ∧ args.names.Nodup := by
  induction words generalizing a with
  | nil =>
    constructor
    · intro h
      obtain rfl := Option.some.inj (Except.ok.inj h)
      exact ⟨[], by rw [List.append_nil], .nil, ha⟩
    · rintro ⟨es, rfl, hes, -⟩
      cases hes
      rw [List.append_nil]
      rfl
  | cons word words ih =>
    by_cases hword : ∃ e, IsOption word e
    · obtain ⟨e, he⟩ := hword
      rw [gatherOptions_of_isOption he]
      by_cases hnew : e.1 ∈ a.names
      · rw [if_pos hnew]
        constructor
        · intro h
          cases h
        · rintro ⟨es, rfl, hes, hdistinct⟩
          cases hes with
          | cons he' =>
            obtain rfl := he.unique he'
            unfold Arguments.names at hdistinct
            rw [List.map_append] at hdistinct
            exact absurd rfl ((List.nodup_append.1 hdistinct).2.2 _ hnew e.1 (by simp))
      · rw [if_neg hnew, ih (Arguments.nodup_of_add ha (Arguments.add_eq_ok_iff.2 ⟨hnew, rfl⟩))]
        constructor
        · rintro ⟨es, rfl, hes, hdistinct⟩
          exact ⟨e :: es, by simp, .cons he hes, hdistinct⟩
        · rintro ⟨es, rfl, hes, hdistinct⟩
          cases hes with
          | cons he' hes =>
            obtain rfl := he.unique he'
            exact ⟨_, by simp, hes, hdistinct⟩
    · rw [gatherOptions_of_not_isOption hword]
      constructor
      · intro h
        cases h
      · rintro ⟨es, -, hes, -⟩
        cases hes with
        | cons he => exact absurd ⟨_, he⟩ hword

end Gathering

/-! ## Commands that stand for calls -/

namespace Item

variable {known : String → Bool} {x y : Item}

/-- The item is a command of a known procedure whose other words are options with different names,
and what it becomes is the call of the procedure with these arguments in order. -/
def Becomes (known : String → Bool) (x y : Item) : Prop :=
  ∃ line head words args, x.action = .shell line head words ∧ known head = true ∧
    List.Forall₂ IsOption words args.entries ∧ args.names.Nodup ∧ y = .call head args

/-- **Promoted items.** Promotion finds a call for the commands that stand for one, and only for
them. -/
theorem promote_eq_some_iff : x.promote known = .ok (some y) ↔ x.Becomes known y := by
  have hgather : ∀ {words : List String} {args : Arguments},
      gatherOptions .empty words = .ok (some args) ↔
        List.Forall₂ IsOption words args.entries ∧ args.names.Nodup := by
    intro words args
    rw [gatherOptions_eq_some_iff (by simp [Arguments.empty, Arguments.names])]
    constructor
    · rintro ⟨es, rfl, hes⟩
      exact hes
    · intro hes
      exact ⟨args.entries, rfl, hes⟩
  constructor
  · intro h
    unfold promote at h
    split at h
    · next line head words haction =>
      split at h
      · next hknown =>
        split at h
        · next args hargs =>
          cases args with
          | none => cases h
          | some args =>
            obtain rfl := Option.some.inj (Except.ok.inj h)
            obtain ⟨hwords, hdistinct⟩ := hgather.1 hargs
            exact ⟨line, head, words, args, haction, hknown, hwords, hdistinct, rfl⟩
        · cases h
      · cases h
    · cases h
  · rintro ⟨line, head, words, args, haction, hknown, hwords, hdistinct, rfl⟩
    unfold promote
    simp only [haction, hknown, if_true, hgather.2 ⟨hwords, hdistinct⟩]
    rfl

end Item

/-- The line of a call stands for the call wherever its procedure is known. -/
theorem promote_callLine {name : String} {args : Arguments} {known : String → Bool}
    (hname : IsProcedureName name) (hargs : args.WellNamed) (hknown : known name = true) :
    (Item.ofLine (callLine name args)).promote known = .ok (some (.call name args)) := by
  have hwords : List.Forall₂ IsOption (args.entries.map Arguments.optionText) args.entries := by
    rw [List.forall₂_map_left_iff, List.forall₂_same]
    exact fun e he => isOption_optionText (hargs.names e he)
  rw [ofLine_callLine hname hargs, Item.promote_eq_some_iff]
  exact ⟨_, name, _, args, rfl, hknown, hwords, hargs.distinct, rfl⟩

/-- **Calls.** The line that a call is written as stands on one row without blanks around it; read
as an item it has the procedure's name as its command word and one word for each argument in order,
and wherever the procedure is known this item is promoted to the call it was written from. -/
theorem call_of_callLine {name : String} {args : Arguments} {known : String → Bool}
    (hname : IsProcedureName name) (hargs : args.WellNamed) (hknown : known name = true) :
    ∃ line, (Item.call name args).text? posix = some line ∧
      '\n' ∉ line.toList ∧ Text.trimmed line = line ∧
      (Item.ofLine line).action =
        .shell line name (args.entries.map fun e => e.1 ++ "=" ++ posix e.2) ∧
      (Item.ofLine line).promote known = .ok (some (.call name args)) := by
  refine ⟨callLine name args, text?_call name args, lineFeed_not_mem_callLine hname hargs,
    trimmed_callLine hname args, ?_, promote_callLine hname hargs hknown⟩
  rw [ofLine_callLine hname hargs]
  rfl

/-- A value with quotes, a line feed and a backslash, and an empty one. -/
def deployArguments : Arguments :=
  ⟨[("note", "it's\n\"done\" \\"), ("tag", "")]⟩

theorem call_of_callLine_deploy :
    IsProcedureName "deploy" ∧ deployArguments.WellNamed ∧
      ∃ line, (Item.call "deploy" deployArguments).text? posix = some line ∧
        '\n' ∉ line.toList ∧ Text.trimmed line = line ∧
        (Item.ofLine line).action = .shell line "deploy"
          (deployArguments.entries.map fun e => e.1 ++ "=" ++ posix e.2) ∧
        (Item.ofLine line).promote (· == "deploy") =
          .ok (some (.call "deploy" deployArguments)) := by
  have hname : IsProcedureName "deploy" := by decide
  have hargs : deployArguments.WellNamed := by decide
  exact ⟨hname, hargs, call_of_callLine hname hargs (beq_self_eq_true "deploy")⟩

end Runbook
