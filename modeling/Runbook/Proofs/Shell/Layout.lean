import Mathlib.Data.List.Chain
import Runbook.Proofs.Shell.Slices

/-!
# Layout of a command

A command is made up of rows with separators between them, and a row of blanks, words and a comment
at its end (`Part`, `Row`). A scan loses nothing of this: each row with words in it is a statement
with these words, whose text is the trimmed row, and the characters of all rows and separators in
order are those of the command (`layout_of_tokenize`). The proof follows the scan: it has read some
rows with their separators, some parts of the current row, and the start of a word (`State.Lays`).
-/

namespace Runbook.Shell

/-! ## Rows -/

/-- What stands in a command between two separators. -/
inductive Part where
  | blank (c : Char)
  | word (w : Word)
  | comment (body : List Char)
  deriving DecidableEq, Repr

/-- Words that end the word before them and need no blank around them. -/
def Word.IsOperator (w : Word) : Prop :=
  w = .ofBare ['|'] ∨ w = .ofBare ['|', '|'] ∨ w = .ofBare ['&'] ∨ w = .ofBare ['&', '&']

/-- Outside quotes the word has neither a blank nor a separator. -/
def Word.IsTight (w : Word) : Prop :=
  ∀ c, .bare c ∈ w.segments → ¬(c = ' ' ∨ c = '\t' ∨ c = '\r') ∧ ¬(c = '\n' ∨ c = ';')

namespace Part

def source : Part → List Char
  | .blank c => [c]
  | .word w => w.source
  | .comment body => '#' :: body

def word? : Part → Option Word
  | .word w => some w
  | _ => none

/-- A blank is a space, a tab or a carriage return; a word has a first character, and this is no
`#`; and a comment stands on one line. -/
def WellFormed : Part → Prop
  | .blank c => c = ' ' ∨ c = '\t' ∨ c = '\r'
  | .word w => (∃ c, w.source.head? = some c ∧ c ≠ '#') ∧ w.IsTight
  | .comment body => '\n' ∉ body

/-- The second part may stand directly behind the first one: nothing does behind a comment, and
behind a word neither a comment nor another word, but for operators. -/
def MayPrecede : Part → Part → Prop
  | .comment _, _ => False
  | .word w, .comment _ => w.IsOperator
  | .word w, .word w' => w.IsOperator ∨ w'.IsOperator
  | _, _ => True

/-- A blank or an operator, which may stand behind any word. -/
def IsBreak : Part → Prop
  | .blank _ => True
  | .word w => w.IsOperator
  | .comment _ => False

variable {x y : Part}

theorem IsBreak.mayPrecede (h : x.IsBreak) (y : Part) : x.MayPrecede y := by
  cases x with
  | blank c => trivial
  | comment body => cases h
  | word w =>
    cases y with
    | blank c => trivial
    | word w' => exact .inl h
    | comment body => exact h

theorem IsBreak.mayFollow (h : y.IsBreak) (hx : ∀ body, x ≠ .comment body) : x.MayPrecede y := by
  cases x with
  | blank c => trivial
  | comment body => exact absurd rfl (hx body)
  | word w =>
    cases y with
    | blank c => trivial
    | word w' => exact .inr h
    | comment body => cases h

end Part

/-- The parts between two separators, in order. -/
abbrev Row := List Part

namespace Row

def source (r : Row) : List Char :=
  r.flatMap Part.source

def words (r : Row) : List Word :=
  r.filterMap Part.word?

/-- Well-formed parts, each of which may stand where it stands. -/
structure WellFormed (r : Row) : Prop where
  parts : ∀ x ∈ r, x.WellFormed
  order : r.IsChain Part.MayPrecede

/-- The row ends in a comment. -/
def EndsInComment (r : Row) : Prop :=
  ∃ body, r.getLast? = some (.comment body)

/-- The part may stand behind the row. -/
def Allows (r : Row) (x : Part) : Prop :=
  ∀ y, r.getLast? = some y → y.MayPrecede x

/-- The statement that a row stands for, if there is a word in it. -/
def statement? (r : Row) : Option Statement :=
  if r.words = [] then none else some ⟨String.ofList (Text.trim r.source), r.words⟩

/-- The separator may stand behind the row: a line feed always, a `;` only behind a word, and not
in a comment. -/
def MayEndAt (r : Row) (c : Char) : Prop :=
  c = '\n' ∨ c = ';' ∧ r.words ≠ [] ∧ ¬r.EndsInComment

variable {r : Row} {x : Part}

theorem wellFormed_nil : WellFormed [] :=
  ⟨nofun, .nil⟩

theorem allows_nil (x : Part) : Allows [] x :=
  nofun

theorem WellFormed.concat (h : r.WellFormed) (hx : x.WellFormed) (hallows : r.Allows x) :
    WellFormed (r ++ [x]) := by
  refine ⟨?_, h.order.append (.singleton x) ?_⟩
  · simpa [or_imp, forall_and] using ⟨h.parts, hx⟩
  · intro y hy z hz
    obtain rfl := Option.some.inj hz
    exact hallows y hy

theorem WellFormed.of_concat (h : WellFormed (r ++ [x])) : r.WellFormed ∧ r.Allows x := by
  refine ⟨⟨fun y hy => h.parts y (List.mem_append_left _ hy), h.order.left_of_append⟩, ?_⟩
  intro y hy
  exact (List.isChain_append.1 h.order).2.2 y hy x rfl

theorem allows_of_isBreak (h : ¬r.EndsInComment) (hx : x.IsBreak) : r.Allows x :=
  fun _ hy => hx.mayFollow fun body hbody => h ⟨body, hbody ▸ hy⟩

theorem allows_concat (hx : x.IsBreak) (y : Part) : Allows (r ++ [x]) y := by
  intro z hz
  rw [List.getLast?_concat] at hz
  obtain rfl := Option.some.inj hz
  exact hx.mayPrecede y

theorem not_endsInComment (h : ∀ x, r.Allows x) : ¬r.EndsInComment :=
  fun ⟨_, hbody⟩ => h (.blank ' ') _ hbody

theorem not_endsInComment_concat (hx : ∀ body, x ≠ .comment body) :
    ¬EndsInComment (r ++ [x]) := by
  rintro ⟨body, hbody⟩
  rw [List.getLast?_concat] at hbody
  exact hx body (Option.some.inj hbody)

@[simp] theorem source_concat (r : Row) (x : Part) : source (r ++ [x]) = r.source ++ x.source := by
  simp [source]

@[simp] theorem words_concat_word (r : Row) (w : Word) :
    words (r ++ [.word w]) = r.words ++ [w] := by
  simp [words, Part.word?]

@[simp] theorem words_concat_blank (r : Row) (c : Char) : words (r ++ [.blank c]) = r.words := by
  simp [words, Part.word?]

@[simp] theorem words_concat_comment (r : Row) (body : List Char) :
    words (r ++ [.comment body]) = r.words := by
  simp [words, Part.word?]

/-- All words of some rows are those of their statements. -/
theorem flatMap_words (rows : List Row) :
    (rows.filterMap statement?).flatMap Statement.words = rows.flatMap words := by
  induction rows with
  | nil => rfl
  | cons r rows ih =>
    rw [List.filterMap_cons, List.flatMap_cons, ← ih]
    unfold statement?
    split_ifs with hwords
    · rw [hwords, List.nil_append]
    · rfl

end Row

theorem Word.IsOperator.isTight {w : Word} (h : w.IsOperator) : w.IsTight := by
  rcases h with rfl | rfl | rfl | rfl <;> intro c hc <;> simp [Word.ofBare] at hc <;> subst hc <;>
    decide

theorem Word.IsOperator.wellFormed {w : Word} (h : w.IsOperator) : (Part.word w).WellFormed := by
  refine ⟨?_, h.isTight⟩
  rcases h with rfl | rfl | rfl | rfl
  · exact ⟨'|', rfl, by decide⟩
  · exact ⟨'|', rfl, by decide⟩
  · exact ⟨'&', rfl, by decide⟩
  · exact ⟨'&', rfl, by decide⟩

/-! ## The current row -/

namespace State

variable {s t v : State} {c : Char} {r : Row} {w : Word}

/-- The characters of the word that has begun. -/
def begun (s : State) : List Char :=
  s.word.reverse.flatMap Segment.source ++ s.mode.pending

/-- Where the parts of a row may end: in a comment within this comment, behind a `|` outside of
comments, and else where anything may follow. -/
def Stands : Mode → Row → Prop
  | .comment, r => r.EndsInComment
  | .bar, r => ¬r.EndsInComment
  | _, r => ∀ x, r.Allows x

theorem stands_of_allows {m : Mode} (hm : m ≠ .bar ∧ m ≠ .comment) (h : ∀ x, r.Allows x) :
    Stands m r := by
  cases m with
  | bar => exact absurd rfl hm.1
  | comment => exact absurd rfl hm.2
  | _ => exact h

/-- The row is what the scan has read of its statement, up to the word that has begun. -/
structure Reads (s : State) (r : Row) : Prop where
  wellFormed : r.WellFormed
  words : r.words = s.words.reverse
  text : s.text.reverse = r.source ++ s.begun
  head : s.begun.head? ≠ some '#'
  tight : Word.IsTight ⟨s.word⟩
  tidy : s.IsTidy
  stands : Stands s.mode r

theorem reads_nil (hmode : s.mode = .bare) (htext : s.text = []) (hword : s.word = [])
    (hwords : s.words = []) : s.Reads [] where
  wellFormed := Row.wellFormed_nil
  words := by rw [hwords]; rfl
  text := by simp [htext, begun, hword, hmode, Mode.pending, Row.source]
  head := by simp [begun, hword, hmode, Mode.pending]
  tight := by simp [hword, Word.IsTight]
  tidy := fun _ => hword
  stands := by
    rw [hmode]
    exact Row.allows_nil

theorem flatMap_source_eq_nil {xs : List Segment} (h : xs.flatMap Segment.source = []) :
    xs = [] := by
  cases xs with
  | nil => rfl
  | cons x xs => cases x <;> cases h

theorem Reads.not_endsInComment (h : s.Reads r) (hmode : s.mode ≠ .comment) :
    ¬r.EndsInComment := by
  have hstands := h.stands
  cases hm : s.mode with
  | comment => exact absurd hm hmode
  | bar =>
    rw [hm] at hstands
    exact hstands
  | _ =>
    rw [hm] at hstands
    exact Row.not_endsInComment hstands

theorem Reads.exists_endWord (h : s.Reads r) (hmode : s.mode ≠ .comment)
    (hopen : s.word ≠ [] → ∀ x, r.Allows x) :
    ∃ r' : Row, r'.WellFormed ∧ r'.words = s.endWord.words.reverse ∧
      r'.source = r.source ++ s.word.reverse.flatMap Segment.source ∧ ¬r'.EndsInComment ∧
      (s.word = [] → r' = r) := by
  by_cases hword : s.word = []
  · refine ⟨r, h.wellFormed, ?_, ?_, h.not_endsInComment hmode, fun _ => rfl⟩
    · rw [endWord_of_word hword, h.words]
    · simp [hword]
  · have hwell : (Part.word ⟨s.word.reverse⟩).WellFormed := by
      refine ⟨?_, fun c hc => h.tight c (List.mem_reverse.1 hc)⟩
      have hne : (Word.mk s.word.reverse).source ≠ [] := fun hnil =>
        hword (List.reverse_eq_nil_iff.1 (flatMap_source_eq_nil hnil))
      obtain ⟨c, cs, hc⟩ := List.exists_cons_of_ne_nil hne
      refine ⟨c, by rw [hc]; rfl, fun hhash => h.head ?_⟩
      rw [begun, show s.word.reverse.flatMap Segment.source = c :: cs from hc, hhash]
      rfl
    refine ⟨r ++ [.word ⟨s.word.reverse⟩], h.wellFormed.concat hwell (hopen hword _), ?_, ?_,
      Row.not_endsInComment_concat nofun, fun hnil => absurd hnil hword⟩
    · rw [words_endWord hword, List.reverse_cons, Row.words_concat_word, h.words]
    · rw [Row.source_concat]
      rfl

/-- Behind a finished row a part is read that lets anything follow. -/
theorem reads_concat {x : Part} (hr : r.WellFormed) (hx : x.WellFormed) (hbreak : x.IsBreak)
    (hend : ¬r.EndsInComment) (hwords : Row.words (r ++ [x]) = t.words.reverse)
    (htext : t.text.reverse = r.source ++ x.source) (hword : t.word = []) (hmode : t.mode = .bare) :
    t.Reads (r ++ [x]) where
  wellFormed := hr.concat hx (Row.allows_of_isBreak hend hbreak)
  words := hwords
  text := by simp [htext, begun, hword, hmode, Mode.pending]
  head := by simp [begun, hword, hmode, Mode.pending]
  tight := by simp [hword, Word.IsTight]
  tidy := fun _ => hword
  stands := by
    rw [hmode]
    exact Row.allows_concat hbreak

theorem Reads.grow (h : s.Reads r) (hwords : t.words = s.words) (htext : t.text = c :: s.text)
    (hbegun : t.begun = s.begun ++ [c]) (hc : s.begun = [] → c ≠ '#')
    (htight : Word.IsTight ⟨t.word⟩) (htidy : t.IsTidy) (hstands : Stands t.mode r) :
    t.Reads r where
  wellFormed := h.wellFormed
  words := h.words.trans (congrArg List.reverse hwords.symm)
  text := by rw [htext, List.reverse_cons, h.text, hbegun, List.append_assoc]
  head := by
    rw [hbegun]
    cases hs : s.begun with
    | nil => simpa using hc hs
    | cons d ds => simpa [hs] using h.head
  tight := htight
  tidy := htidy
  stands := hstands

theorem isTight_cons {x : Segment} {xs : List Segment} (h : Word.IsTight ⟨xs⟩)
    (hx : ∀ c, x = .bare c → ¬(c = ' ' ∨ c = '\t' ∨ c = '\r') ∧ ¬(c = '\n' ∨ c = ';')) :
    Word.IsTight ⟨x :: xs⟩ := by
  intro c hc
  rcases List.mem_cons.1 hc with hc | hc
  · exact hx c hc.symm
  · exact h c hc

theorem Reads.push (h : s.Reads r) {x : Segment} (hopen : ∀ y, r.Allows y)
    (hsource : s.word.reverse.flatMap Segment.source ++ x.source = s.begun ++ [c])
    (hc : s.begun = [] → c ≠ '#')
    (hx : ∀ c, x = .bare c → ¬(c = ' ' ∨ c = '\t' ∨ c = '\r') ∧ ¬(c = '\n' ∨ c = ';')) :
    ((s.push x).advance c).Reads r := by
  refine h.grow rfl rfl ?_ hc (isTight_cons h.tight hx) nofun hopen
  rw [← hsource]
  simp [begun, State.push, advance, Mode.pending]

theorem Reads.enter (h : s.Reads r) {m : Mode} (hstands : Stands m r)
    (hsource : s.word.reverse.flatMap Segment.source ++ m.pending = s.begun ++ [c])
    (hc : s.begun = [] → c ≠ '#') (hm : m ≠ .bar ∧ m ≠ .comment) :
    ((s.enter m).advance c).Reads r :=
  h.grow rfl rfl hsource hc h.tight (fun hmode => absurd hmode (not_or.2 hm)) hstands

theorem Reads.exists_stepBare (h : s.Reads r) (hmode : s.mode = .bare)
    (hstep : s.stepBare c = .ok t) (hc : ¬(c = '\n' ∨ c = ';')) : ∃ r', t.Reads r' := by
  have hopen : ∀ x, r.Allows x := by
    have hstands := h.stands
    rw [hmode] at hstands
    exact hstands
  have hpending : s.begun = s.word.reverse.flatMap Segment.source := by
    rw [begun, hmode, Mode.pending, List.append_nil]
  obtain ⟨r', hwell, hwords, hsource, hend, hsame⟩ :=
    h.exists_endWord (by rw [hmode]; rintro ⟨⟩) fun _ => hopen
  have htext : s.endWord.text.reverse = r'.source := by
    rw [(endWord_same s).1, h.text, hsource, hpending]
  obtain ⟨hnewline, hsemicolon⟩ := not_or.1 hc
  unfold stepBare at hstep
  split_ifs at hstep with hblank hbar hand hangle hsingle hdouble hescape hcomment <;>
    obtain rfl := Except.ok.inj hstep
  · have hpart : (Part.blank c).WellFormed := hblank
    refine ⟨_, reads_concat hwell hpart trivial hend ?_ ?_ (word_endWord s) rfl⟩
    · rw [Row.words_concat_blank, hwords]
      rfl
    · show (c :: s.endWord.text).reverse = _
      rw [List.reverse_cons, htext]
      rfl
  · refine ⟨r', hwell, hwords, ?_, ?_, ?_, fun _ => word_endWord s, hend⟩
    · show (c :: s.endWord.text).reverse = _ ++ (s.endWord.word.reverse.flatMap _ ++ ['|'])
      rw [List.reverse_cons, htext, word_endWord, hbar]
      rfl
    · show (s.endWord.word.reverse.flatMap _ ++ ['|']).head? ≠ _
      rw [word_endWord]
      exact fun h => absurd h (by decide)
    · show Word.IsTight ⟨s.endWord.word⟩
      rw [word_endWord]
      rintro d ⟨⟩
  · subst hand
    refine ⟨r, h.push hopen ?_ (fun _ => by decide) ?_⟩
    · rw [hpending]
      rfl
    · rintro d ⟨⟩
      decide
  · exact ⟨r, h.enter hopen (by rw [hpending, hand]; rfl) (by simp [hand]) (by simp)⟩
  · exact ⟨r, h.enter hopen (by rw [hpending, hsingle]; rfl) (by simp [hsingle]) (by simp)⟩
  · exact ⟨r, h.enter hopen (by rw [hpending, hdouble]; rfl) (by simp [hdouble]) (by simp)⟩
  · exact ⟨r, h.enter hopen (by rw [hpending, hescape]; rfl) (by simp [hescape]) (by simp)⟩
  · obtain ⟨rfl, hempty⟩ := hcomment
    have hword : s.word = [] := List.isEmpty_iff.1 hempty
    refine ⟨r ++ [.comment []], h.wellFormed.concat (by simp [Part.WellFormed]) (hopen _), ?_, ?_,
      ?_, h.tight, fun _ => hword, ⟨[], List.getLast?_concat⟩⟩
    · rw [Row.words_concat_comment]
      exact h.words
    · show ('#' :: s.text).reverse = _ ++ (s.word.reverse.flatMap _ ++ [])
      rw [List.reverse_cons, h.text, hpending, hword, Row.source_concat]
      simp [Part.source]
    · show (s.word.reverse.flatMap _ ++ []).head? ≠ _
      rw [hword]
      rintro ⟨⟩
  · refine ⟨r, h.push hopen (by rw [hpending]; rfl) (fun hnil hhash => hcomment ⟨hhash, ?_⟩) ?_⟩
    · rw [hpending] at hnil
      rw [List.reverse_eq_nil_iff.1 (flatMap_source_eq_nil hnil)]
      rfl
    · rintro d hd
      obtain rfl := Segment.bare.inj hd
      exact ⟨hblank, hc⟩

theorem Reads.exists_ampersand (h : s.Reads r) (hmode : s.mode = .ampersand) :
    ∃ r' : Row, r'.WellFormed ∧ r'.words = s.endWord.words.reverse ∧
      s.text.reverse = r'.source ++ ['&'] ∧ ¬r'.EndsInComment := by
  have hopen : ∀ x, r.Allows x := by
    have hstands := h.stands
    rw [hmode] at hstands
    exact hstands
  obtain ⟨r', hwell, hwords, hsource, hend, -⟩ :=
    h.exists_endWord (by rw [hmode]; rintro ⟨⟩) fun _ => hopen
  refine ⟨r', hwell, hwords, ?_, hend⟩
  rw [h.text, begun, hmode, hsource, List.append_assoc]
  rfl

theorem exists_operator (op : Word) (hr : r.WellFormed) (hop : op.IsOperator)
    (hend : ¬r.EndsInComment) (hwords : r.words = s.words.reverse)
    (htext : s.text.reverse = r.source ++ op.source) (hword : s.word = []) :
    (s.pushWord op).Reads (r ++ [.word op]) := by
  refine reads_concat hr hop.wellFormed hop hend ?_ htext hword rfl
  rw [Row.words_concat_word, hwords]
  simp [pushWord]

theorem Reads.exists_comment (h : s.Reads r) (hmode : s.mode = .comment)
    (hstep : s.step c = .ok t) (hc : c ≠ '\n') : ∃ r', t.Reads r' := by
  have hstands := h.stands
  rw [hmode] at hstands
  rw [step, hmode] at hstep
  dsimp only at hstep
  rw [if_neg hc] at hstep
  obtain rfl := Except.ok.inj hstep
  obtain ⟨body, hbody⟩ := hstands
  obtain ⟨r', rfl⟩ := List.getLast?_eq_some_iff.1 hbody
  have hword : s.word = [] := h.tidy (.inr hmode)
  have hbegun : s.begun = [] := by simp [begun, hword, hmode, Mode.pending]
  obtain ⟨hwell, hallows⟩ := h.wellFormed.of_concat
  have hnext : (Part.comment (body ++ [c])).WellFormed := by
    have hpart : (Part.comment body).WellFormed :=
      h.wellFormed.parts _ (List.mem_append_right _ List.mem_cons_self)
    simpa [Part.WellFormed, hc.symm] using hpart
  refine ⟨r' ++ [.comment (body ++ [c])], hwell.concat hnext ?_, ?_, ?_, h.head, h.tight, h.tidy,
    by rw [show (s.advance c).mode = _ from hmode]; exact ⟨_, List.getLast?_concat⟩⟩
  · intro y hy
    have := hallows y hy
    cases y <;> exact this
  · rw [Row.words_concat_comment, ← Row.words_concat_comment r' body]
    exact h.words
  · show (c :: s.text).reverse = _ ++ s.begun
    rw [List.reverse_cons, h.text, hbegun, Row.source_concat, Row.source_concat]
    simp [Part.source]

/-- Behind a `&` the character redirects, is a second `&`, or stands behind the operator. -/
theorem Reads.exists_stepAmpersand (h : s.Reads r) (hmode : s.mode = .ampersand)
    (hstep : s.step c = .ok t) (hc : ¬(c = '\n' ∨ c = ';')) : ∃ r', t.Reads r' := by
  have hstands := h.stands
  rw [hmode] at hstands
  obtain ⟨r', hwell, hwords, htext, hend⟩ := h.exists_ampersand hmode
  rw [← (endWord_same s).1] at htext
  rw [step, hmode] at hstep
  dsimp only at hstep
  split_ifs at hstep with hangle hand
  · subst hangle
    obtain rfl := Except.ok.inj (hstep : Except.ok _ = _)
    refine ⟨r, h.grow rfl rfl ?_ (fun _ => by decide) ?_ (by rintro (hn | hn) <;> cases hn)
      hstands⟩
    · simp [begun, hmode, State.push, advance, Mode.pending, Segment.source]
    · refine isTight_cons (isTight_cons h.tight ?_) ?_ <;> rintro d ⟨⟩ <;> decide
  · obtain rfl := Except.ok.inj hstep
    refine ⟨_, exists_operator (s := s.endWord.advance c) _ hwell (.inr (.inr (.inr rfl))) hend
      hwords ?_ (word_endWord s)⟩
    show (c :: s.endWord.text).reverse = _
    rw [List.reverse_cons, htext, hand, Word.source_ofBare, List.append_assoc]
    rfl
  · have hop := exists_operator (.ofBare ['&']) hwell (.inr (.inr (.inl rfl))) hend hwords
      (by rw [htext, Word.source_ofBare]) (word_endWord s)
    exact hop.exists_stepBare rfl hstep hc

theorem Reads.exists_stepBar (h : s.Reads r) (hmode : s.mode = .bar) (hstep : s.step c = .ok t)
    (hc : ¬(c = '\n' ∨ c = ';')) : ∃ r', t.Reads r' := by
  have hstands := h.stands
  rw [hmode] at hstands
  have hword : s.word = [] := h.tidy (.inl hmode)
  have htext : s.text.reverse = r.source ++ ['|'] := by
    rw [h.text, begun, hword, hmode]
    rfl
  rw [step, hmode] at hstep
  dsimp only at hstep
  split_ifs at hstep with hbar
  · obtain rfl := Except.ok.inj hstep
    refine ⟨_, exists_operator (s := s.advance c) _ h.wellFormed (.inr (.inl rfl)) hstands
      h.words ?_ hword⟩
    show (c :: s.text).reverse = _
    rw [List.reverse_cons, htext, hbar, Word.source_ofBare, List.append_assoc]
    rfl
  · have hop := exists_operator (.ofBare ['|']) h.wellFormed (.inl rfl) hstands h.words
      (by rw [htext, Word.source_ofBare]) hword
    exact hop.exists_stepBare rfl hstep hc

/-- Where no statement may end, a word has begun, and anything may follow the row. -/
theorem Reads.of_quotes (h : s.Reads r) (hlast : s.lastWord? = none) (hquotes : s.Quotes c t) :
    t.Reads r := by
  have hopen : ∀ x, r.Allows x := by
    have hstands := h.stands
    unfold lastWord? at hlast
    cases hmode : s.mode <;> rw [hmode] at hlast hstands
    case bare | comment | ampersand | bar => cases hlast
    all_goals exact hstands
  have hbegun : s.begun = [] → c ≠ '#' := fun hnil =>
    absurd (List.append_eq_nil_iff.1 hnil).2 (pending_ne_nil hlast)
  cases hquotes with
  | finishes x hsource hx =>
    exact h.push hopen (by rw [hsource, begun, List.append_assoc]) hbegun
      fun d hd => absurd hd (hx d)
  | keeps m hpending hm _ =>
    exact h.enter (stands_of_allows hm.2 hopen) (by rw [hpending, begun, List.append_assoc]) hbegun
      hm.2

/-- **One character.** A character that ends no statement joins the row. -/
theorem Reads.exists_step (h : s.Reads r) (hstep : s.step c = .ok t)
    (hending : s.ending? c = none) : ∃ r', t.Reads r' := by
  cases hlast : s.lastWord? with
  | none => exact ⟨r, h.of_quotes hlast (quotes_of_step hstep hlast)⟩
  | some u =>
    have hc := not_separator hending hlast
    cases hmode : s.mode with
    | bare =>
      rw [step, hmode] at hstep
      exact h.exists_stepBare hmode hstep (by simpa [hmode] using hc)
    | comment => exact h.exists_comment hmode hstep (not_or.1 hc).1
    | ampersand => exact h.exists_stepAmpersand hmode hstep (by simpa [hmode] using hc)
    | bar => exact h.exists_stepBar hmode hstep (by simpa [hmode] using hc)
    | _ =>
      rw [lastWord?, hmode] at hlast
      cases hlast

/-- Where the statement may end, its row is finished. -/
theorem Reads.exists_lastWord? (h : s.Reads r) (hv : s.lastWord? = some v) :
    ∃ r' : Row, r'.WellFormed ∧ r'.words = v.words.reverse ∧ r'.source = s.text.reverse ∧
      (s.mode ≠ .comment → ¬r'.EndsInComment) := by
  have hstands := h.stands
  unfold lastWord? at hv
  cases hmode : s.mode <;> rw [hmode] at hv hstands <;> dsimp only at hv
  case bare =>
    obtain rfl := Option.some.inj hv
    obtain ⟨r', hwell, hwords, hsource, hend, -⟩ :=
      h.exists_endWord (by rw [hmode]; rintro ⟨⟩) fun _ => hstands
    refine ⟨r', hwell, hwords, ?_, fun _ => hend⟩
    rw [hsource, h.text, begun, hmode, Mode.pending, List.append_nil]
  case comment =>
    obtain rfl := Option.some.inj hv
    have hword : s.word = [] := h.tidy (.inr hmode)
    refine ⟨r, h.wellFormed, ?_, ?_, fun hne => absurd rfl hne⟩
    · rw [endWord_of_word hword, h.words]
    · rw [h.text, begun, hword, hmode]
      exact (List.append_nil _).symm
  case ampersand =>
    obtain rfl := Option.some.inj hv
    obtain ⟨r', hwell, hwords, htext, hend⟩ := h.exists_ampersand hmode
    rw [← (endWord_same s).1] at htext
    have hop := exists_operator (.ofBare ['&']) hwell (.inr (.inr (.inl rfl))) hend hwords
      (by rw [htext, Word.source_ofBare]) (word_endWord s)
    refine ⟨_, hop.wellFormed, hop.words, ?_, fun _ => hop.not_endsInComment (by rintro ⟨⟩)⟩
    rw [Row.source_concat, ← (endWord_same s).1, htext]
    rfl
  case bar =>
    obtain rfl := Option.some.inj hv
    have hword : s.word = [] := h.tidy (.inl hmode)
    have htext : s.text.reverse = r.source ++ ['|'] := by
      rw [h.text, begun, hword, hmode]
      rfl
    have hop := exists_operator (.ofBare ['|']) h.wellFormed (.inl rfl) hstands h.words
      (by rw [htext, Word.source_ofBare]) hword
    refine ⟨_, hop.wellFormed, hop.words, ?_, fun _ => hop.not_endsInComment (by rintro ⟨⟩)⟩
    rw [Row.source_concat, htext]
    rfl
  all_goals cases hv

/-! ## All rows -/

end State

/-- The characters of rows, each with its separator behind it. -/
def separated (rows : List (Row × Char)) : List Char :=
  rows.flatMap fun x => x.1.source ++ [x.2]

theorem separated_concat (rows : List (Row × Char)) (r : Row) (c : Char) :
    separated (rows ++ [(r, c)]) = separated rows ++ (r.source ++ [c]) := by
  simp [separated]

namespace State

variable {s t u : State} {c : Char} {read cs : List Char} {rows : List (Row × Char)} {r : Row}

/-- What was read are these rows with their separators and a part of another row, and the finished
statements are those of the rows. -/
structure Lays (s : State) (read : List Char) (rows : List (Row × Char)) : Prop where
  read : read = separated rows ++ s.text.reverse
  wellFormed : ∀ x ∈ rows, x.1.WellFormed ∧ x.1.MayEndAt x.2
  statements : s.statements.reverse = rows.filterMap fun x => x.1.statement?
  current : ∃ r, s.Reads r

theorem lays_start : start.Lays [] [] :=
  ⟨rfl, nofun, rfl, [], reads_nil rfl rfl rfl rfl⟩

theorem statements_endStatement (hwords : r.words = u.words.reverse)
    (hsource : r.source = u.text.reverse) :
    u.endStatement.statements.reverse = u.statements.reverse ++ r.statement?.toList := by
  unfold endStatement Row.statement?
  rw [hwords, hsource]
  cases u.words <;> simp

/-- A character joins the current row, or it ends this row, where a statement may end. -/
theorem Lays.exists_step (h : s.Lays read rows) (hstep : s.step c = .ok t) :
    ∃ rows', t.Lays (read ++ [c]) rows' ∧
      (rows' = rows ∨ ∃ r v, rows' = rows ++ [(r, c)] ∧ s.lastWord? = some v) := by
  obtain ⟨r, hr⟩ := h.current
  cases hending : s.ending? c with
  | none =>
    cases consumes_of_step hstep with
    | separates u hu => cases hending.symm.trans hu
    | joins htext hstatements =>
      refine ⟨rows, ⟨?_, h.wellFormed, by rw [hstatements, h.statements],
        hr.exists_step hstep hending⟩, .inl rfl⟩
      rw [htext, List.reverse_cons, ← List.append_assoc, ← h.read]
  | some u =>
    rw [step_of_ending? hending] at hstep
    split_ifs at hstep with hempty
    obtain rfl := Except.ok.inj hstep
    obtain ⟨htext, hstatements, -⟩ := ending?_same hending
    unfold ending? at hending
    split_ifs at hending with hc
    obtain ⟨v, hv, rfl⟩ := Option.map_eq_some_iff.1 hending
    obtain ⟨r', hwell, hwords, hsource, hend⟩ := hr.exists_lastWord? hv
    rw [endWord_of_word (lastWord?_finished hr.tidy hv).1] at htext hstatements hempty ⊢
    have hrow : r'.MayEndAt c := by
      rcases hc with rfl | ⟨rfl, hmode⟩
      · exact .inl rfl
      · refine .inr ⟨rfl, fun hnil => hempty ⟨rfl, ?_⟩, hend hmode⟩
        rw [hwords, List.reverse_eq_nil_iff] at hnil
        rw [hnil]
        rfl
    rw [separate_eq]
    refine ⟨rows ++ [(r', c)], ⟨?_, ?_, ?_, [],
      reads_nil rfl rfl (lastWord?_finished hr.tidy hv).1 rfl⟩, .inr ⟨r', v, rfl, hv⟩⟩
    · rw [separated_concat, h.read, hsource]
      simp
    · intro x hx
      rcases List.mem_append.1 hx with hx | hx
      · exact h.wellFormed x hx
      · obtain rfl := List.mem_singleton.1 hx
        exact ⟨hwell, hrow⟩
    · show v.endStatement.statements.reverse = _
      rw [statements_endStatement hwords (hsource.trans (by rw [htext])), hstatements,
        h.statements, List.filterMap_append]
      cases hstatement : r'.statement? <;> simp [hstatement]

theorem Lays.exists_run (h : s.Lays read rows) (hrun : s.run cs = .ok t) :
    ∃ rows', t.Lays (read ++ cs) rows' :=
  run_invariant (fun s read => ∃ rows, s.Lays read rows)
    (fun ⟨_, h⟩ hstep => (h.exists_step hstep).imp fun _ h => h.1) read ⟨rows, h⟩ hrun

end State

variable {text : String} {statements : List Statement}

/-- Where the last row ends, the statements are those of all rows. -/
theorem State.Lays.exists_last {s u : State} {read : List Char} {rows : List (Row × Char)}
    (h : s.Lays read rows) (hlast : s.lastWord? = some u) :
    ∃ last : Row, read = separated rows ++ last.source ∧ last.WellFormed ∧
      u.endStatement.statements.reverse =
        (rows.map (·.1) ++ [last]).filterMap Row.statement? := by
  obtain ⟨r, hr⟩ := h.current
  obtain ⟨htext, hstatements, -⟩ := State.lastWord?_same hlast
  obtain ⟨last, hwell, hwords, hsource, -⟩ := hr.exists_lastWord? hlast
  refine ⟨last, by rw [hsource]; exact h.read, hwell, ?_⟩
  rw [State.statements_endStatement hwords (hsource.trans (by rw [htext])), hstatements,
    h.statements, List.filterMap_append, List.filterMap_map]
  cases hstatement : last.statement? <;> simp [hstatement]

/-- A command is made up of rows with separators between them, and its statements are those of the
rows. -/
theorem exists_rows_of_tokenize (h : tokenize text = .complete statements) :
    ∃ (rows : List (Row × Char)) (last : Row),
      text.toList = separated rows ++ last.source ∧
      (∀ x ∈ rows, x.1.WellFormed ∧ x.1.MayEndAt x.2) ∧ last.WellFormed ∧
      statements = (rows.map (·.1) ++ [last]).filterMap Row.statement? := by
  obtain ⟨s, u, hrun, hlast, rfl⟩ := scan_eq_complete_iff.1 h
  obtain ⟨rows, hs⟩ := State.lays_start.exists_run hrun
  obtain ⟨last, htext, hwell, hall⟩ := hs.exists_last hlast
  exact ⟨rows, last, htext, hs.wellFormed, hwell, hall⟩

/-- **Layout.** A command is made up of well-formed rows with separators between them, and no
character of it is lost: every row with words in it is a statement with these words in order, whose
text is the trimmed row, and there are no other statements. -/
theorem layout_of_tokenize (h : tokenize text = .complete statements) :
    ∃ (rows : List (Row × Char)) (last : Row),
      text.toList = separated rows ++ last.source ∧
      (∀ x ∈ rows, x.1.WellFormed ∧ x.1.MayEndAt x.2) ∧ last.WellFormed ∧
      statements = (rows.map (·.1) ++ [last]).filterMap Row.statement? ∧
      statements.flatMap Statement.words = (rows.map (·.1) ++ [last]).flatMap Row.words := by
  obtain ⟨rows, last, htext, hrows, hlast, hall⟩ := exists_rows_of_tokenize h
  refine ⟨rows, last, htext, hrows, hlast, hall, ?_⟩
  rw [hall, Row.flatMap_words]

/-- A command with an operator, a comment, an empty row and a quoted separator. -/
def pipeLine : String :=
  "make|tee log # all; done\n\necho 'a;b' ;ls"

theorem layout_of_tokenize_pipeLine :
    ∃ statements, tokenize pipeLine = .complete statements ∧
      statements.map Statement.text = ["make|tee log # all; done", "echo 'a;b'", "ls"] ∧
      ∃ (rows : List (Row × Char)) (last : Row),
        pipeLine.toList = separated rows ++ last.source ∧
        (∀ x ∈ rows, x.1.WellFormed ∧ x.1.MayEndAt x.2) ∧ last.WellFormed ∧
        statements = (rows.map (·.1) ++ [last]).filterMap Row.statement? ∧
        statements.flatMap Statement.words = (rows.map (·.1) ++ [last]).flatMap Row.words := by
  have htokenize : ∃ statements, tokenize pipeLine = .complete statements ∧
      statements.map Statement.text = ["make|tee log # all; done", "echo 'a;b'", "ls"] :=
    ⟨_, rfl, by decide +kernel⟩
  obtain ⟨statements, hstatements, htexts⟩ := htokenize
  exact ⟨statements, hstatements, htexts, layout_of_tokenize hstatements⟩

end Runbook.Shell
