import Mathlib.Data.List.Perm.Basic
import Runbook.Proofs.Pipeline.Promotion

/-!
# Options that are given twice

Promotion reads the words behind a command word in order and stops at the first one that is no
option or has the name of an option before it (`Item.promote_eq_error_iff`). The rule for calls does
not speak of order: a command of a known procedure is a call when all of its words are options, and
it is an error when two of these have the same name. Promotion keeps to the rule for every order of
the words exactly when these are all options, or when no two options among them have the same name
(`rule_of_promotion`).
-/

namespace Runbook

variable {known : String → Bool} {word name name' line head : String}
  {words words' before names : List String} {a : Arguments} {x x' : Item} {e : DuplicatedOption}

/-! ## Names of options -/

/-- The word is an option of this name. -/
def IsNamed (word name : String) : Prop :=
  IsOptionName name ∧ ∃ text, word = name ++ "=" ++ text

/-- The name of the option that a word gives. -/
def optionName? (word : String) : Option String :=
  (splitOption? word).map (·.1)

theorem optionName?_eq_some_iff : optionName? word = some name ↔ IsNamed word name := by
  unfold optionName? IsNamed
  simp only [Option.map_eq_some_iff, Prod.exists, exists_and_right, exists_eq_right,
    splitOption?_eq_some_iff, exists_and_left]

theorem IsNamed.unique (h : IsNamed word name) (h' : IsNamed word name') : name = name' :=
  Option.some.inj ((optionName?_eq_some_iff.2 h).symm.trans (optionName?_eq_some_iff.2 h'))

theorem isNamed_iff_isOption : IsNamed word name ↔ ∃ o, IsOption word o ∧ o.1 = name := by
  constructor
  · rintro ⟨hname, text, hword⟩
    exact ⟨(name, Shell.unquote text), ⟨hname, text, hword, rfl⟩, rfl⟩
  · rintro ⟨o, ⟨hname, text, hword, -⟩, rfl⟩
    exact ⟨hname, text, hword⟩

theorem not_isNamed_semicolon : ¬IsNamed ";" name := fun h =>
  nomatch optionName?_eq_some_iff.2 h

/-- Words that are all options have their names. -/
theorem exists_forall₂_isNamed (h : ∀ w ∈ words, ∃ name, IsNamed w name) :
    ∃ names, List.Forall₂ IsNamed words names := by
  induction words with
  | nil => exact ⟨[], .nil⟩
  | cons w words ih =>
    obtain ⟨⟨name, hname⟩, hwords⟩ := List.forall_mem_cons.1 h
    obtain ⟨names, hnames⟩ := ih hwords
    exact ⟨name :: names, .cons hname hnames⟩

theorem isNamed_of_forall₂ (h : List.Forall₂ IsNamed words names) :
    ∀ w ∈ words, ∃ name, IsNamed w name := by
  induction h with
  | nil => simp
  | cons hname _ ih => exact List.forall_mem_cons.2 ⟨⟨_, hname⟩, ih⟩

theorem filterMap_optionName? (h : List.Forall₂ IsNamed words names) :
    words.filterMap optionName? = names := by
  induction h with
  | nil => rfl
  | cons hname _ ih => rw [List.filterMap_cons_some (optionName?_eq_some_iff.2 hname), ih]

/-! ## The first repetition -/

/-- Behind options with different names stands an option that has one of these names again. -/
def Repeats (words : List String) (name : String) : Prop :=
  ∃ before word behind names, words = before ++ word :: behind ∧
    List.Forall₂ IsNamed before names ∧ names.Nodup ∧ IsNamed word name ∧ name ∈ names

theorem Repeats.append (h : Repeats words name) (rest : List String) :
    Repeats (words ++ rest) name := by
  obtain ⟨before, word, behind, names, rfl, hbefore, hdistinct, hword, hmem⟩ := h
  exact ⟨before, word, behind ++ rest, names, by simp, hbefore, hdistinct, hword, hmem⟩

theorem Repeats.not_nodup (h : Repeats words name) : ¬(words.filterMap optionName?).Nodup := by
  obtain ⟨before, word, behind, names, rfl, hbefore, -, hword, hmem⟩ := h
  rw [List.filterMap_append, filterMap_optionName? hbefore,
    List.filterMap_cons_some (optionName?_eq_some_iff.2 hword)]
  intro hdistinct
  exact (List.nodup_append.1 hdistinct).2.2 name hmem name List.mem_cons_self rfl

/-- Options with new names are gathered. -/
theorem exists_gatherOptions_append (h : List.Forall₂ IsNamed before names)
    (hnew : (a.names ++ names).Nodup) : ∃ more : Arguments, more.names = a.names ++ names ∧
      ∀ words, gatherOptions a (before ++ words) = gatherOptions more words := by
  induction h generalizing a with
  | nil => exact ⟨a, by simp, fun _ => rfl⟩
  | @cons word name before names hname _ ih =>
    obtain ⟨o, ho, rfl⟩ := isNamed_iff_isOption.1 hname
    have hnames : Arguments.names ⟨a.entries ++ [o]⟩ = a.names ++ [o.1] := by
      simp [Arguments.names]
    rw [List.append_cons, ← hnames] at hnew
    obtain ⟨more, hmore, hgather⟩ := ih hnew
    have hfirst : o.1 ∉ a.names := fun hmem => by
      rw [hnames] at hnew
      exact (List.nodup_append.1 (List.nodup_append.1 hnew).1).2.2 _ hmem _ List.mem_cons_self rfl
    refine ⟨more, by rw [hmore, hnames, ← List.append_cons], fun words => ?_⟩
    rw [List.cons_append, gatherOptions_of_isOption ho, if_neg hfirst, hgather]

/-- The gathering fails at the first option whose name was there before. -/
theorem gatherOptions_eq_error_iff (ha : a.names.Nodup) :
    gatherOptions a words = .error name ↔
      ∃ before word behind names, words = before ++ word :: behind ∧
        List.Forall₂ IsNamed before names ∧ (a.names ++ names).Nodup ∧ IsNamed word name ∧
        name ∈ a.names ++ names := by
  constructor
  · intro h
    induction words generalizing a with
    | nil => cases h
    | cons word words ih =>
      by_cases hword : ∃ o, IsOption word o
      · obtain ⟨o, ho⟩ := hword
        have hnamed : IsNamed word o.1 := isNamed_iff_isOption.2 ⟨o, ho, rfl⟩
        rw [gatherOptions_of_isOption ho] at h
        split at h
        · next hold =>
          obtain rfl := Except.error.inj h
          exact ⟨[], word, words, [], rfl, .nil, by simpa using ha, hnamed, by simpa using hold⟩
        · next hnew =>
          obtain ⟨before, w, behind, names, rfl, hbefore, hdistinct, hw, hmem⟩ :=
            ih (Arguments.nodup_of_add ha (Arguments.add_eq_ok_iff.2 ⟨hnew, rfl⟩)) h
          have hnames : Arguments.names ⟨a.entries ++ [o]⟩ ++ names = a.names ++ o.1 :: names := by
            simp [Arguments.names]
          rw [hnames] at hdistinct hmem
          exact ⟨word :: before, w, behind, o.1 :: names, rfl, .cons hnamed hbefore, hdistinct, hw,
            hmem⟩
      · rw [gatherOptions_of_not_isOption hword] at h
        cases h
  · rintro ⟨before, word, behind, names, rfl, hbefore, hdistinct, hword, hmem⟩
    obtain ⟨more, hmore, hgather⟩ := exists_gatherOptions_append hbefore hdistinct
    obtain ⟨o, ho, rfl⟩ := isNamed_iff_isOption.1 hword
    rw [hgather, gatherOptions_of_isOption ho, if_pos (by rwa [hmore])]

theorem gatherOptions_empty_eq_error_iff :
    gatherOptions .empty words = .error name ↔ Repeats words name :=
  gatherOptions_eq_error_iff (a := .empty) .nil

/-- Words that are all options are gathered, or repeat a name. -/
theorem gatherOptions_ne_none (h : ∀ w ∈ words, ∃ name, IsNamed w name) :
    gatherOptions a words ≠ .ok none := by
  induction words generalizing a with
  | nil => nofun
  | cons word words ih =>
    obtain ⟨⟨name, hname⟩, hwords⟩ := List.forall_mem_cons.1 h
    obtain ⟨o, ho, -⟩ := isNamed_iff_isOption.1 hname
    rw [gatherOptions_of_isOption ho]
    split
    · nofun
    · exact ih hwords

theorem exists_forall₂_isOption (h : List.Forall₂ IsNamed words names) :
    ∃ es : List (String × String), List.Forall₂ IsOption words es ∧ es.map (·.1) = names := by
  induction h with
  | nil => exact ⟨[], .nil, rfl⟩
  | cons hname _ ih =>
    obtain ⟨o, ho, rfl⟩ := isNamed_iff_isOption.1 hname
    obtain ⟨es, hes, rfl⟩ := ih
    exact ⟨o :: es, .cons ho hes, rfl⟩

theorem forall₂_isNamed {es : List (String × String)} (h : List.Forall₂ IsOption words es) :
    List.Forall₂ IsNamed words (es.map (·.1)) :=
  List.forall₂_map_right_iff.2 (h.imp fun _ o ho => isNamed_iff_isOption.2 ⟨o, ho, rfl⟩)

theorem exists_repeats (h : List.Forall₂ IsNamed words names) (hnames : ¬names.Nodup) :
    ∃ name, Repeats words name := by
  cases hgather : gatherOptions .empty words with
  | error name => exact ⟨name, gatherOptions_empty_eq_error_iff.1 hgather⟩
  | ok found =>
    cases found with
    | none => exact absurd hgather (gatherOptions_ne_none (isNamed_of_forall₂ h))
    | some args =>
      obtain ⟨es, rfl, hes, hdistinct⟩ :=
        (gatherOptions_eq_some_iff (a := .empty) .nil).1 hgather
      rw [← filterMap_optionName? h, filterMap_optionName? (forall₂_isNamed hes)] at hnames
      exact absurd hdistinct hnames

/-- A word that is no option ends the gathering, unless that has failed before it. -/
theorem gatherOptions_append_of_not_isNamed (hword : ∀ name, ¬IsNamed word name)
    (rest : List String) : gatherOptions a (words ++ word :: rest) =
      (gatherOptions a words).map fun _ => none := by
  induction words generalizing a with
  | nil =>
    have hnone : ¬∃ o, IsOption word o := fun ⟨o, ho⟩ =>
      hword o.1 (isNamed_iff_isOption.2 ⟨o, ho, rfl⟩)
    rw [List.nil_append, gatherOptions_of_not_isOption hnone]
    rfl
  | cons w words ih =>
    by_cases hw : ∃ o, IsOption w o
    · obtain ⟨o, ho⟩ := hw
      rw [List.cons_append, gatherOptions_of_isOption ho, gatherOptions_of_isOption ho]
      split
      · rfl
      · exact ih
    · rw [List.cons_append, gatherOptions_of_not_isOption hw, gatherOptions_of_not_isOption hw]
      rfl

/-! ## What becomes of an item -/

namespace Item

/-- **Repeated options.** Promotion fails for the commands of known procedures that repeat an
option before any word that is none, and it names the first option that is repeated. -/
theorem promote_eq_error_iff : x.promote known = .error e ↔
    ∃ line head words name, x.action = .shell line head words ∧ known head = true ∧
      Repeats words name ∧ e = ⟨head, name, line⟩ := by
  constructor
  · intro h
    unfold promote at h
    split at h
    · next line head words haction =>
      split at h
      · next hknown =>
        split at h
        · cases h
        · next name hname =>
          obtain rfl := Except.error.inj h
          exact ⟨line, head, words, name, haction, hknown,
            gatherOptions_empty_eq_error_iff.1 hname, rfl⟩
      · cases h
    · cases h
  · rintro ⟨line, head, words, name, haction, hknown, hrepeats, rfl⟩
    unfold promote
    simp only [haction, hknown, if_true, gatherOptions_empty_eq_error_iff.2 hrepeats]

/-- The item is a command of a known procedure whose other words are all options, with these
names. -/
def GivesOptions (known : String → Bool) (x : Item) (names : List String) : Prop :=
  ∃ line head words, x.action = .shell line head words ∧ known head = true ∧
    List.Forall₂ IsNamed words names

/-- The rule for calls: a command of a known procedure with options alone is a call when these have
different names, and an error when they have not; any other item is left alone. -/
structure FollowsRule (known : String → Bool) (x : Item) : Prop where
  error : (∃ e, x.promote known = .error e) ↔ ∃ names, x.GivesOptions known names ∧ ¬names.Nodup
  call : (∃ y, x.promote known = .ok (some y)) ↔ ∃ names, x.GivesOptions known names ∧ names.Nodup
  kept : x.promote known = .ok none ↔ ¬∃ names, x.GivesOptions known names

/-- The same item with the words behind its command word in another order. -/
inductive Rearranges : Item → Item → Prop
  | refl (x : Item) : Rearranges x x
  | words {words words' : List String} (h : words.Perm words') (label line head : String) :
    Rearranges ⟨label, .shell line head words⟩ ⟨label, .shell line head words'⟩

/-- Promotion finds an error in both items or in none, a call in both or in none, and leaves both
alone or none. -/
structure SameOutcome (known : String → Bool) (x x' : Item) : Prop where
  error : (∃ e, x.promote known = .error e) ↔ ∃ e, x'.promote known = .error e
  call : (∃ y, x.promote known = .ok (some y)) ↔ ∃ y, x'.promote known = .ok (some y)
  kept : x.promote known = .ok none ↔ x'.promote known = .ok none

/-- The words of a command of a known procedure are all options, or no two options among them have
the same name. -/
def Orderly (known : String → Bool) (x : Item) : Prop :=
  ∀ line head words, x.action = .shell line head words → known head = true →
    (∀ w ∈ words, ∃ name, IsNamed w name) ∨ (words.filterMap optionName?).Nodup

/-! ### Items that keep to the rule -/

theorem exists_call_iff : (∃ y, x.promote known = .ok (some y)) ↔
    ∃ names, x.GivesOptions known names ∧ names.Nodup := by
  constructor
  · rintro ⟨y, hy⟩
    obtain ⟨line, head, words, args, haction, hknown, hwords, hdistinct, -⟩ :=
      promote_eq_some_iff.1 hy
    exact ⟨args.names, ⟨line, head, words, haction, hknown, forall₂_isNamed hwords⟩, hdistinct⟩
  · rintro ⟨names, ⟨line, head, words, haction, hknown, hwords⟩, hdistinct⟩
    obtain ⟨es, hes, rfl⟩ := exists_forall₂_isOption hwords
    exact ⟨.call head ⟨es⟩, promote_eq_some_iff.2
      ⟨line, head, words, ⟨es⟩, haction, hknown, hes, hdistinct, rfl⟩⟩

theorem GivesOptions.promote_ne_none (h : x.GivesOptions known names) :
    x.promote known ≠ .ok none := by
  obtain ⟨line, head, words, haction, hknown, hwords⟩ := h
  unfold promote
  simp only [haction, hknown, if_true]
  cases hgather : gatherOptions .empty words with
  | error name => nofun
  | ok found =>
    cases found with
    | none => exact absurd hgather (gatherOptions_ne_none (isNamed_of_forall₂ hwords))
    | some args => nofun

theorem GivesOptions.exists_error (h : x.GivesOptions known names) (hnames : ¬names.Nodup) :
    ∃ e, x.promote known = .error e := by
  obtain ⟨line, head, words, haction, hknown, hwords⟩ := h
  obtain ⟨name, hrepeats⟩ := exists_repeats hwords hnames
  exact ⟨_, promote_eq_error_iff.2 ⟨line, head, words, name, haction, hknown, hrepeats, rfl⟩⟩

/-- Promotion keeps to the rule where it fails for nothing but options. -/
theorem followsRule_of_error
    (h : ∀ e, x.promote known = .error e → ∃ names, x.GivesOptions known names) :
    x.FollowsRule known := by
  have herror : (∃ e, x.promote known = .error e) → ∃ names, x.GivesOptions known names ∧
      ¬names.Nodup := by
    rintro ⟨e, he⟩
    obtain ⟨names, hnames⟩ := h e he
    refine ⟨names, hnames, fun hdistinct => ?_⟩
    obtain ⟨y, hy⟩ := exists_call_iff.2 ⟨names, hnames, hdistinct⟩
    cases he.symm.trans hy
  refine ⟨⟨herror, fun ⟨names, hnames, hrepeated⟩ => hnames.exists_error hrepeated⟩,
    exists_call_iff, fun hnone ⟨names, hnames⟩ => hnames.promote_ne_none hnone, fun hnone => ?_⟩
  cases hpromote : x.promote known with
  | error e => exact absurd (h e hpromote) hnone
  | ok found =>
    cases found with
    | none => rfl
    | some y =>
      obtain ⟨names, hnames, -⟩ := exists_call_iff.1 ⟨y, hpromote⟩
      exact absurd ⟨names, hnames⟩ hnone

theorem Orderly.followsRule (h : x.Orderly known) : x.FollowsRule known := by
  apply followsRule_of_error
  intro e he
  obtain ⟨line, head, words, name, haction, hknown, hrepeats, -⟩ := promote_eq_error_iff.1 he
  rcases h line head words haction hknown with hall | hdistinct
  · obtain ⟨names, hnames⟩ := exists_forall₂_isNamed hall
    exact ⟨names, line, head, words, haction, hknown, hnames⟩
  · exact absurd hdistinct hrepeats.not_nodup

/-! ### The order of the words -/

theorem Rearranges.symm (h : x.Rearranges x') : x'.Rearranges x := by
  cases h with
  | refl => exact .refl x
  | words hperm label line head => exact .words hperm.symm label line head

theorem Rearranges.orderly (h : x.Rearranges x') (hx : x.Orderly known) : x'.Orderly known := by
  cases h with
  | refl => exact hx
  | words hperm label line head =>
    intro line' head' words' haction hknown
    obtain ⟨rfl, rfl, rfl⟩ := Action.shell.inj haction
    refine (hx line head _ rfl hknown).imp (fun hall w hw => ?_) fun hdistinct => ?_
    · exact hall w (hperm.mem_iff.2 hw)
    · exact (hperm.filterMap _).nodup_iff.1 hdistinct

theorem Rearranges.exists_givesOptions (h : x.Rearranges x') (hx : x.GivesOptions known names) :
    ∃ names', names.Perm names' ∧ x'.GivesOptions known names' := by
  cases h with
  | refl => exact ⟨names, .refl _, hx⟩
  | words hperm label line head =>
    obtain ⟨line', head', words, haction, hknown, hwords⟩ := hx
    obtain ⟨rfl, rfl, rfl⟩ := Action.shell.inj haction
    obtain ⟨names', hwords', hnames⟩ := List.perm_comp_forall₂ hperm.symm hwords
    exact ⟨names', hnames.symm, line, head, _, rfl, hknown, hwords'⟩

theorem Rearranges.exists_givesOptions_iff (h : x.Rearranges x') {p : List String → Prop}
    (hp : ∀ names names' : List String, names.Perm names' → (p names ↔ p names')) :
    (∃ names, x.GivesOptions known names ∧ p names) ↔
      ∃ names, x'.GivesOptions known names ∧ p names := by
  constructor
  · rintro ⟨names, hx, hnames⟩
    obtain ⟨names', hperm, hx'⟩ := h.exists_givesOptions hx
    exact ⟨names', hx', (hp _ _ hperm).1 hnames⟩
  · rintro ⟨names, hx, hnames⟩
    obtain ⟨names', hperm, hx'⟩ := h.symm.exists_givesOptions hx
    exact ⟨names', hx', (hp _ _ hperm).1 hnames⟩

/-- The rule does not see the order of the words. -/
theorem Rearranges.sameOutcome (h : x.Rearranges x') (hx : x.FollowsRule known)
    (hx' : x'.FollowsRule known) : x.SameOutcome known x' := by
  have hkept : (∃ names, x.GivesOptions known names) ↔ ∃ names, x'.GivesOptions known names := by
    simpa only [and_true] using h.exists_givesOptions_iff (p := fun _ => True) fun _ _ _ => Iff.rfl
  refine ⟨?_, ?_, ?_⟩
  · rw [hx.error, hx'.error]
    exact h.exists_givesOptions_iff fun _ _ hperm => not_congr hperm.nodup_iff
  · rw [hx.call, hx'.call]
    exact h.exists_givesOptions_iff fun _ _ hperm => hperm.nodup_iff
  · rw [hx.kept, hx'.kept, hkept]

/-- A command with a repeated option and a word that is none has an order in which promotion fails:
the one with the options in front. -/
theorem exists_error_of_not_orderly (h : ¬x.Orderly known) :
    ∃ x' e, x.Rearranges x' ∧ x'.promote known = .error e ∧
      ¬∃ names, x'.GivesOptions known names := by
  unfold Orderly at h
  push Not at h
  obtain ⟨line, head, words, haction, hknown, ⟨word, hword, hnone⟩, hrepeated⟩ := h
  obtain ⟨label, action⟩ := x
  obtain rfl : action = .shell line head words := haction
  have hperm := List.filter_append_perm (fun w => (optionName? w).isSome) words
  have hoptions : ∀ w ∈ words.filter fun w => (optionName? w).isSome, ∃ name, IsNamed w name := by
    intro w hw
    obtain ⟨name, hname⟩ := Option.isSome_iff_exists.1 (List.mem_filter.1 hw).2
    exact ⟨name, optionName?_eq_some_iff.1 hname⟩
  obtain ⟨names, hnames⟩ := exists_forall₂_isNamed hoptions
  have hsame : names = words.filterMap optionName? := by
    rw [← filterMap_optionName? hnames, List.filterMap_filter]
    congr 1
    funext w
    cases optionName? w <;> rfl
  obtain ⟨name, hrepeats⟩ := exists_repeats hnames (hsame ▸ hrepeated)
  refine ⟨_, _, .words hperm.symm label line head, promote_eq_error_iff.2
    ⟨line, head, _, name, rfl, hknown, hrepeats.append _, rfl⟩, ?_⟩
  rintro ⟨names', line', head', words', haction', -, hwords'⟩
  obtain ⟨rfl, rfl, rfl⟩ := Action.shell.inj haction'
  obtain ⟨name', hname'⟩ := isNamed_of_forall₂ hwords' word (hperm.mem_iff.2 hword)
  exact hnone name' hname'

theorem orderly_iff_forall_rearranges : x.Orderly known ↔
    ∀ x', x.Rearranges x' → x'.FollowsRule known ∧ x.SameOutcome known x' := by
  constructor
  · intro h x' hx'
    have hrule := (hx'.orderly h).followsRule
    exact ⟨hrule, hx'.sameOutcome h.followsRule hrule⟩
  · intro h
    by_contra hx
    obtain ⟨x', e, hx', he, hnone⟩ := exists_error_of_not_orderly hx
    obtain ⟨names, hnames, -⟩ := (h x' hx').1.error.1 ⟨e, he⟩
    exact hnone ⟨names, hnames⟩

/-! ### Several statements -/

theorem exists_ofStatements_eq {s : Shell.Statement} (hs : s.words ≠ []) (line : String)
    (s' : Shell.Statement) (rest : List Shell.Statement) : ∃ behind,
    ofStatements line (s :: s' :: rest) = .shell line s.head (s.args ++ ";" :: behind) := by
  obtain ⟨w, ws, hwords⟩ := List.exists_cons_of_ne_nil hs
  unfold ofStatements
  simp only [Shell.Statement.head, Shell.Statement.args, Shell.Statement.wordTexts, hwords,
    List.intercalate, List.map_cons, List.intersperse_cons_cons, List.flatten_cons,
    List.cons_append, List.nil_append]
  exact ⟨_, rfl⟩

/-- A command of several statements is no call, and promotion fails for it exactly when it fails for
the first statement. -/
theorem promote_ofStatements_eq_none_iff {s s' : Shell.Statement} {rest : List Shell.Statement}
    (hs : s.words ≠ []) (line : String) :
    (ofStatements line (s :: s' :: rest)).promote known = .ok none ↔
      ∀ e, (ofStatement s).promote known ≠ .error e := by
  obtain ⟨behind, hstatements⟩ := exists_ofStatements_eq hs line s' rest
  rw [hstatements]
  unfold promote ofStatement shell
  dsimp only
  split
  · rw [gatherOptions_append_of_not_isNamed fun _ => not_isNamed_semicolon]
    cases gatherOptions .empty s.args <;> simp [Except.map]
  · simp

/-- Promotion leaves a command of several statements as it is. -/
theorem promoted_ofStatements {s s' : Shell.Statement} {rest : List Shell.Statement}
    (hs : s.words ≠ []) (line : String) :
    (ofStatements line (s :: s' :: rest)).promoted known = ofStatements line (s :: s' :: rest) := by
  obtain ⟨behind, hstatements⟩ := exists_ofStatements_eq hs line s' rest
  rw [hstatements]
  unfold promoted
  split
  · next y hy =>
    obtain ⟨names, ⟨l, head, words, haction, -, hwords⟩, -⟩ := exists_call_iff.1 ⟨y, hy⟩
    obtain ⟨-, -, rfl⟩ := Action.shell.inj haction
    obtain ⟨name, hname⟩ := isNamed_of_forall₂ hwords ";" (by simp)
    exact absurd hname not_isNamed_semicolon
  · rfl

end Item

/-- **The rule for calls.** Promotion keeps to the rule for every order of an item's words, and so
comes to the same for each of them, exactly when the words are all options or no two options among
them have the same name. A command of several statements is left alone, whatever stands behind its
first statement, exactly when promotion does not fail for this. -/
theorem rule_of_promotion (known : String → Bool) (x : Item) (line : String)
    {s : Shell.Statement} (s' : Shell.Statement) (rest : List Shell.Statement)
    (hs : s.words ≠ []) :
    (x.Orderly known ↔
      ∀ x', x.Rearranges x' → x'.FollowsRule known ∧ x.SameOutcome known x') ∧
    ((Item.ofStatements line (s :: s' :: rest)).promote known = .ok none ↔
      ∀ e, (Item.ofStatement s).promote known ≠ .error e) :=
  ⟨Item.orderly_iff_forall_rearranges, Item.promote_ofStatements_eq_none_iff hs line⟩

def buildStatement : Shell.Statement :=
  ⟨"build a=1 b=2", [.ofBare "build".toList, .ofBare "a=1".toList, .ofBare "b=2".toList]⟩

theorem rule_of_promotion_build :
    Shell.tokenize "build a=1 b=2; build a=1 b=2" =
        .complete [buildStatement, buildStatement] ∧
      (∀ x', (Item.ofLine "build a=1 bad b=2").Rearranges x' →
        x'.FollowsRule (· == "build") ∧
          (Item.ofLine "build a=1 bad b=2").SameOutcome (· == "build") x') ∧
      (Item.ofStatements "build a=1 b=2; build a=1 b=2"
        [buildStatement, buildStatement]).promote (· == "build") = .ok none := by
  have horderly : (Item.ofLine "build a=1 bad b=2").Orderly (· == "build") := by
    rintro line head words haction -
    have hshell : (Item.ofLine "build a=1 bad b=2").action =
        .shell "build a=1 bad b=2" "build" ["a=1", "bad", "b=2"] := by decide
    obtain ⟨rfl, rfl, rfl⟩ := Action.shell.inj (hshell.symm.trans haction)
    exact .inr (by decide)
  have hcall : ∀ e, (Item.ofStatement buildStatement).promote (· == "build") ≠ .error e := by
    have hpromote : (Item.ofStatement buildStatement).promote (· == "build") =
        .ok (some (.call "build" ⟨[("a", "1"), ("b", "2")]⟩)) := by decide
    rw [hpromote]
    nofun
  obtain ⟨horder, hseveral⟩ := rule_of_promotion (· == "build") (.ofLine "build a=1 bad b=2")
    "build a=1 b=2; build a=1 b=2" (s := buildStatement) buildStatement [] (by decide)
  exact ⟨by decide, horder.1 horderly, hseveral.2 hcall⟩

/-- Promotion fails for a word that is no option behind a repeated one, alone or in a statement of
its own, and not for the same word in front of it. -/
theorem not_followsRule_build :
    (Item.ofLine "build a=1 a=2 bad").promote (· == "build") =
        .error ⟨"build", "a", "build a=1 a=2 bad"⟩ ∧
      (¬∃ names, (Item.ofLine "build a=1 a=2 bad").GivesOptions (· == "build") names) ∧
      (Item.ofLine "build bad a=1 a=2").promote (· == "build") = .ok none ∧
      (Item.ofLine "build a=1 a=2; \x7b").promote (· == "build") =
        .error ⟨"build", "a", "build a=1 a=2; \x7b"⟩ := by
  refine ⟨by decide +kernel, ?_, by decide +kernel, by decide +kernel⟩
  rintro ⟨names, line, head, words, haction, -, hwords⟩
  have hshell : (Item.ofLine "build a=1 a=2 bad").action =
      .shell "build a=1 a=2 bad" "build" ["a=1", "a=2", "bad"] := by decide
  obtain ⟨rfl, rfl, rfl⟩ := Action.shell.inj (hshell.symm.trans haction)
  obtain ⟨name, hname⟩ := isNamed_of_forall₂ hwords "bad" (by decide)
  cases optionName?_eq_some_iff.2 hname

end Runbook
