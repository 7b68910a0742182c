import Mathlib.Algebra.GroupWithZero.Nat
import Mathlib.Tactic.SplitIfs
import Runbook.Text.Utf8

/-!
# Octets that are text

Decoding goes from state to state, an octet at a time. Between characters a state says nothing, and
inside of one it holds the bits so far and the bounds of the next octet. `State.Leads` says which
characters a state can still become: by induction on the octets that are owed, what is decoded are
the octets of a text (`decode?_eq_some_iff`). Each state can become some character, so a sequence
without a wrong octet is a text or ends inside a character (`isStart_iff_whole_or_endsInside`).
-/

namespace Runbook.Text.Utf8

/-! ## The octets of a character -/

/-- The first octet of the character with this number, and how many more it has. -/
def lead (n : Nat) : Nat × Nat :=
  if n ≤ 0x7F then (n, 0)
  else if n ≤ 0x7FF then (n / 64 + 0xC0, 1)
  else if n ≤ 0xFFFF then (n / 4096 + 0xE0, 2)
  else (n / 262144 + 0xF0, 3)

/-- The octet with `k` more behind it, when it is not the first one: six bits of the number. -/
def octet (n k : Nat) : UInt8 :=
  .ofNat (n / 64 ^ k % 64 + 0x80)

/-- The last octets of the character with this number. -/
def tail (n : Nat) : Nat → List UInt8
  | 0 => []
  | k + 1 => octet n k :: tail n k

variable {s t : State} {b : UInt8} {bs : List UInt8} {cs : List Char} {n k : Nat}

@[simp] theorem length_tail (n k : Nat) : (tail n k).length = k := by
  induction k with
  | zero => rfl
  | succ k ih => simp [tail, ih]

theorem toNat_ofNat (h : n < 256) : (UInt8.ofNat n).toNat = n :=
  UInt8.toNat_ofNat_of_lt' h

theorem toNat_charOfNat (h : n.isValidChar) : (Char.ofNat n).toNat = n := by
  unfold Char.ofNat
  rw [dif_pos h]
  rfl

theorem toNat_octet (n k : Nat) : (octet n k).toNat = n / 64 ^ k % 64 + 0x80 :=
  toNat_ofNat (by omega)

theorem utf8EncodeChar_eq (c : Char) : String.utf8EncodeChar c =
    .ofNat (lead c.toNat).1 :: tail c.toNat (lead c.toNat).2 := by
  have hvalid : c.toNat < 0xD800 ∨ 0xDFFF < c.toNat ∧ c.toNat < 0x110000 := c.valid
  have hval : c.val.toNat = c.toNat := rfl
  unfold String.utf8EncodeChar lead
  simp only [hval]
  split_ifs
  · rfl
  · rw [Nat.mod_eq_of_lt (a := c.toNat / 64) (by omega)]
    simp [tail, octet]
  · rw [Nat.mod_eq_of_lt (a := c.toNat / 4096) (by omega)]
    simp [tail, octet]
  · rw [Nat.mod_eq_of_lt (a := c.toNat / 262144) (by omega)]
    simp [tail, octet]

/-! ## States inside a character -/

/-- The octets so far begin the character with this number. -/
structure State.Leads (s : State) (n : Nat) : Prop where
  value : n / 64 ^ s.owed = s.value
  bounds : s.owed ≠ 0 → s.low.toNat ≤ n / 64 ^ (s.owed - 1) % 64 + 0x80 ∧
    n / 64 ^ (s.owed - 1) % 64 + 0x80 ≤ s.high.toNat

/-- Some octet can be the next one, and only an octet that is not the first of a character. -/
structure State.Open (s : State) : Prop where
  low : 0x80 ≤ s.low.toNat
  high : s.high.toNat ≤ 0xBF
  low_le_high : s.low.toNat ≤ s.high.toNat

theorem State.leads_iff : s.Leads n ↔ n / 64 ^ s.owed = s.value ∧
    (s.owed ≠ 0 → s.low.toNat ≤ n / 64 ^ (s.owed - 1) % 64 + 0x80 ∧
      n / 64 ^ (s.owed - 1) % 64 + 0x80 ≤ s.high.toNat) :=
  ⟨fun h => ⟨h.value, h.bounds⟩, fun h => ⟨h.1, h.2⟩⟩

theorem first_ofNat (h : n < 256) : first (.ofNat n) =
    if n ≤ 0x7F then some ⟨0, 0x80, 0xBF, n⟩
    else if 0xC2 ≤ n ∧ n ≤ 0xDF then some ⟨1, 0x80, 0xBF, n - 0xC0⟩
    else if n = 0xE0 then some ⟨2, 0xA0, 0xBF, 0⟩
    else if n = 0xED then some ⟨2, 0x80, 0x9F, n - 0xE0⟩
    else if 0xE1 ≤ n ∧ n ≤ 0xEF then some ⟨2, 0x80, 0xBF, n - 0xE0⟩
    else if n = 0xF0 then some ⟨3, 0x90, 0xBF, 0⟩
    else if 0xF1 ≤ n ∧ n ≤ 0xF3 then some ⟨3, 0x80, 0xBF, n - 0xF0⟩
    else if n = 0xF4 then some ⟨3, 0x80, 0x8F, n - 0xF0⟩
    else none := by
  simp only [first, UInt8.le_iff_toNat_le, ← UInt8.toNat_inj, toNat_ofNat h]
  rfl

theorem exists_octet (b : UInt8) : ∃ m < 256, b = .ofNat m :=
  ⟨b.toNat, b.toNat_lt, UInt8.ofNat_toNat.symm⟩

/-- A first octet begins exactly the characters whose first octet it is: the bounds that it sets for
the next one rule out the numbers that are no characters or have a shorter form. -/
theorem leads_iff_of_first (h : first b = some s) :
    s.Leads n ↔ n.isValidChar ∧ b.toNat = (lead n).1 := by
  obtain ⟨m, hm, rfl⟩ := exists_octet b
  rw [first_ofNat hm] at h
  rw [toNat_ofNat hm]
  unfold lead Nat.isValidChar
  split_ifs at h <;> cases h <;> simp [State.leads_iff] <;> split_ifs <;> simp <;> omega

theorem owed_of_leads (h : first b = some s) (hn : s.Leads n) : s.owed = (lead n).2 := by
  obtain ⟨hvalid, hb⟩ := (leads_iff_of_first h).1 hn
  obtain ⟨m, hm, rfl⟩ := exists_octet b
  rw [first_ofNat hm] at h
  rw [toNat_ofNat hm] at hb
  unfold Nat.isValidChar at hvalid
  unfold lead at hb ⊢
  split_ifs at h <;> cases h <;> split_ifs at hb ⊢ <;> simp at hb ⊢ <;> omega

theorem exists_first (h : n.isValidChar) :
    ∃ s, first (.ofNat (lead n).1) = some s ∧ s.Leads n := by
  have hrange : (lead n).1 ≤ 0x7F ∨ 0xC2 ≤ (lead n).1 ∧ (lead n).1 ≤ 0xF4 := by
    unfold Nat.isValidChar at h
    unfold lead
    split_ifs <;> dsimp only <;> omega
  have hfirst : ∃ s, first (.ofNat (lead n).1) = some s := by
    rw [first_ofNat (by omega)]
    split_ifs
    all_goals first | exact ⟨_, rfl⟩ | omega
  obtain ⟨s, hs⟩ := hfirst
  exact ⟨s, hs, (leads_iff_of_first hs).2 ⟨h, toNat_ofNat (by omega)⟩⟩

theorem open_of_first (h : first b = some s) : s.Open := by
  unfold first at h
  split_ifs at h <;> cases h <;> constructor <;> simp

theorem State.step_of_owed (h : s.owed = k + 1) (b : UInt8) :
    s.step b = if s.low ≤ b ∧ b ≤ s.high then
      some ⟨k, 0x80, 0xBF, s.value * 64 + (b.toNat - 0x80)⟩ else none := by
  unfold step
  rw [if_neg (by omega), h]
  rfl

theorem State.open_of_step (h : s.step b = some t) : t.Open := by
  unfold step at h
  split_ifs at h
  · exact open_of_first h
  · cases h
    constructor <;> simp

theorem leads_inside (n k : Nat) : State.Leads ⟨k, 0x80, 0xBF, n / 64 ^ k⟩ n where
  value := rfl
  bounds _ := ⟨Nat.le_add_left _ _, show _ ≤ 191 by omega⟩

theorem State.Leads.step (h : s.Leads n) (hk : s.owed = k + 1) :
    s.step (octet n k) = some ⟨k, 0x80, 0xBF, n / 64 ^ k⟩ := by
  obtain ⟨hlow, hhigh⟩ := h.bounds (by omega)
  have hvalue := h.value
  rw [hk] at hvalue hlow hhigh
  have hgather : s.value * 64 + n / 64 ^ k % 64 = n / 64 ^ k := by
    rw [← hvalue, Nat.pow_succ, ← Nat.div_div_eq_div_mul, Nat.div_add_mod']
  rw [step_of_owed hk, if_pos, toNat_octet, Nat.add_sub_cancel, hgather]
  rw [UInt8.le_iff_toNat_le, UInt8.le_iff_toNat_le, toNat_octet]
  exact ⟨hlow, hhigh⟩

theorem State.leads_of_step (hs : s.Open) (hk : s.owed = k + 1) (hstep : s.step b = some t)
    (ht : t.Leads n) : s.Leads n ∧ b = octet n k := by
  have hlow := hs.low
  have hhigh := hs.high
  rw [step_of_owed hk] at hstep
  split_ifs at hstep with hb
  obtain rfl := Option.some.inj hstep
  rw [UInt8.le_iff_toNat_le, UInt8.le_iff_toNat_le] at hb
  have hvalue : n / 64 ^ k = s.value * 64 + (b.toNat - 0x80) := ht.value
  have hoctet : n / 64 ^ k % 64 + 0x80 = b.toNat := by omega
  refine ⟨⟨?_, fun _ => ?_⟩, ?_⟩
  · rw [hk, Nat.pow_succ, ← Nat.div_div_eq_div_mul]
    omega
  · rw [hk]
    show _ ≤ n / 64 ^ k % 64 + _ ∧ n / 64 ^ k % 64 + _ ≤ _
    rw [hoctet]
    exact hb
  · rw [← UInt8.toNat_inj, toNat_octet, hoctet]

/-! ## Decoding -/

theorem decodeFrom_cons (h : s.step b = some t) (bs : List UInt8) :
    decodeFrom s (b :: bs) = if t.owed = 0 then
      (decodeFrom .start bs).map (.ofNat t.value :: ·) else decodeFrom t bs := by
  rw [decodeFrom, h]

theorem decodeFrom_tail (h : s.Leads n) (hk : s.owed = k + 1) (bs : List UInt8) :
    decodeFrom s (tail n (k + 1) ++ bs) = (decodeFrom .start bs).map (.ofNat n :: ·) := by
  induction k generalizing s with
  | zero => simp [tail, decodeFrom_cons (h.step hk)]
  | succ k ih =>
    rw [tail, List.cons_append, decodeFrom_cons (h.step hk), if_neg (Nat.succ_ne_zero k)]
    exact ih (leads_inside n (k + 1)) rfl

theorem decodeFrom_char (c : Char) (bs : List UInt8) :
    decodeFrom .start (String.utf8EncodeChar c ++ bs) = (decodeFrom .start bs).map (c :: ·) := by
  obtain ⟨s, hfirst, hleads⟩ := exists_first (n := c.toNat) c.valid
  rw [utf8EncodeChar_eq, List.cons_append,
    decodeFrom_cons (show State.start.step _ = _ from hfirst), ← owed_of_leads hfirst hleads]
  have hvalue := hleads.value
  cases howed : s.owed with
  | zero =>
    rw [howed] at hvalue
    simp [tail, ← hvalue]
  | succ k =>
    rw [if_neg (Nat.succ_ne_zero k), decodeFrom_tail hleads howed]
    simp

theorem State.owed_of_step (hk : s.owed = k + 1) (h : s.step b = some t) : t.owed = k := by
  rw [step_of_owed hk] at h
  split_ifs at h
  obtain rfl := Option.some.inj h
  rfl

/-- What is decoded starts with an octet, and goes on behind it. -/
theorem exists_step_of_decodeFrom (h : decodeFrom s (b :: bs) = some cs) :
    ∃ t, s.step b = some t ∧ ((∃ ds, t.owed = 0 ∧ decodeFrom .start bs = some ds) ∨
      ∃ k, t.owed = k + 1 ∧ decodeFrom t bs = some cs) := by
  cases hstep : s.step b with
  | none =>
    rw [decodeFrom, hstep] at h
    cases h
  | some t =>
    rw [decodeFrom_cons hstep] at h
    cases howed : t.owed with
    | zero =>
      rw [howed, if_pos rfl] at h
      obtain ⟨ds, hds, -⟩ := Option.map_eq_some_iff.1 h
      exact ⟨t, rfl, .inl ⟨ds, howed, hds⟩⟩
    | succ k =>
      rw [howed, if_neg (Nat.succ_ne_zero k)] at h
      exact ⟨t, rfl, .inr ⟨k, howed, h⟩⟩

theorem exists_tail_of_decodeFrom (hs : s.Open) (hk : s.owed = k + 1)
    (h : decodeFrom s bs = some cs) : ∃ n rest, s.Leads n ∧ bs = tail n (k + 1) ++ rest := by
  induction k generalizing s bs with
  | zero =>
    cases bs with
    | nil => simp [decodeFrom, hk] at h
    | cons b bs =>
      obtain ⟨t, hstep, -⟩ := exists_step_of_decodeFrom h
      have ht : t.Leads t.value := by
        constructor <;> simp [State.owed_of_step hk hstep]
      obtain ⟨hleads, rfl⟩ := State.leads_of_step hs hk hstep ht
      exact ⟨_, bs, hleads, rfl⟩
  | succ k ih =>
    cases bs with
    | nil => simp [decodeFrom, hk] at h
    | cons b bs =>
      obtain ⟨t, hstep, ⟨ds, hzero, -⟩ | ⟨-, -, hrest⟩⟩ := exists_step_of_decodeFrom h
      · rw [State.owed_of_step hk hstep] at hzero
        cases hzero
      · obtain ⟨n, rest, ht, rfl⟩ :=
          ih (State.open_of_step hstep) (State.owed_of_step hk hstep) hrest
        obtain ⟨hleads, rfl⟩ := State.leads_of_step hs hk hstep ht
        exact ⟨n, rest, hleads, rfl⟩

theorem exists_char_of_decodeFrom (h : decodeFrom .start (b :: bs) = some cs) :
    ∃ c rest, b :: bs = String.utf8EncodeChar c ++ rest := by
  obtain ⟨s, hfirst, hrest⟩ := exists_step_of_decodeFrom h
  replace hfirst : first b = some s := hfirst
  obtain ⟨n, rest, hleads, rfl⟩ : ∃ n rest, s.Leads n ∧ bs = tail n s.owed ++ rest := by
    rcases hrest with ⟨-, howed, -⟩ | ⟨k, howed, hdecode⟩
    · exact ⟨s.value, bs, by constructor <;> simp [howed], by simp [howed, tail]⟩
    · rw [howed]
      exact exists_tail_of_decodeFrom (open_of_first hfirst) howed hdecode
  obtain ⟨hvalid, hb⟩ := (leads_iff_of_first hfirst).1 hleads
  refine ⟨.ofNat n, rest, ?_⟩
  rw [utf8EncodeChar_eq, toNat_charOfNat hvalid, ← hb, UInt8.ofNat_toNat,
    owed_of_leads hfirst hleads]
  rfl

theorem decodeFrom_encode (cs : List Char) (bs : List UInt8) :
    decodeFrom .start (cs.flatMap String.utf8EncodeChar ++ bs) =
      (decodeFrom .start bs).map (cs ++ ·) := by
  induction cs with
  | nil => simp
  | cons c cs ih =>
    rw [List.flatMap_cons, List.append_assoc, decodeFrom_char, ih, Option.map_map]
    rfl

theorem encode_of_decodeFrom (h : decodeFrom .start bs = some cs) :
    cs.flatMap String.utf8EncodeChar = bs := by
  induction hlen : bs.length using Nat.strongRecOn generalizing bs cs with
  | _ n ih =>
    cases bs with
    | nil =>
      obtain rfl := Option.some.inj h
      rfl
    | cons b bs =>
      obtain ⟨c, rest, hbs⟩ := exists_char_of_decodeFrom h
      rw [hbs, decodeFrom_char] at h
      obtain ⟨ds, hds, rfl⟩ := Option.map_eq_some_iff.1 h
      have hshorter : rest.length < n := by
        have hlength := congrArg List.length hbs
        rw [hlen, utf8EncodeChar_eq] at hlength
        simp only [List.length_append, List.length_cons] at hlength
        omega
      rw [List.flatMap_cons, ih _ hshorter hds rfl, hbs]

/-- **Decoding.** Octets are decoded as a text exactly when they are the octets of this text. -/
theorem decode?_eq_some_iff {text : String} : decode? bs = some text ↔ encode text = bs := by
  unfold decode? encode
  constructor
  · intro h
    obtain ⟨cs, hcs, rfl⟩ := Option.map_eq_some_iff.1 h
    rw [String.toList_ofList]
    exact encode_of_decodeFrom hcs
  · rintro rfl
    have hdecode := decodeFrom_encode text.toList []
    rw [List.append_nil] at hdecode
    rw [hdecode]
    simp [decodeFrom, State.start]

/-! ## The start of a text -/

theorem State.open_of_run (hs : s.Open) (h : s.run bs = some t) : t.Open := by
  induction bs generalizing s with
  | nil =>
    obtain rfl := Option.some.inj h
    exact hs
  | cons b bs ih =>
    obtain ⟨u, hstep, hrun⟩ := Option.bind_eq_some_iff.1 h
    exact ih (open_of_step hstep) hrun

/-- From every state some octets lead on to the end of a character. -/
theorem State.Open.exists_run (h : s.Open) : ∃ more t, s.run more = some t ∧ t.owed = 0 := by
  induction hk : s.owed generalizing s with
  | zero => exact ⟨[], s, rfl, hk⟩
  | succ k ih =>
    obtain ⟨t, hstep⟩ : ∃ t, s.step s.low = some t := by
      rw [step_of_owed hk, if_pos ⟨UInt8.le_refl _, UInt8.le_iff_toNat_le.2 h.low_le_high⟩]
      exact ⟨_, rfl⟩
    obtain ⟨more, u, hrun, hu⟩ := ih (open_of_step hstep) (owed_of_step hk hstep)
    exact ⟨s.low :: more, u, by rw [run, hstep]; exact hrun, hu⟩

/-- Between characters it does not matter which one was the last. -/
theorem State.exists_run_iff (h : s.owed = 0) (bs : List UInt8) :
    (∃ t, s.run bs = some t ∧ t.owed = 0) ↔ ∃ t, start.run bs = some t ∧ t.owed = 0 := by
  cases bs with
  | nil => simp [run, h, start]
  | cons b bs => simp [run, step, h, start]

theorem isSome_decodeFrom_iff :
    (decodeFrom s bs).isSome ↔ ∃ t, s.run bs = some t ∧ t.owed = 0 := by
  induction bs generalizing s with
  | nil =>
    rw [decodeFrom]
    split <;> simp [State.run, *]
  | cons b bs ih =>
    cases hstep : s.step b with
    | none => simp [decodeFrom, State.run, hstep]
    | some t =>
      rw [decodeFrom_cons hstep, State.run, hstep]
      split
      · next hzero =>
        rw [Option.isSome_map, ih]
        exact (State.exists_run_iff hzero bs).symm
      · exact ih

/-- **Starts of texts.** No octet of a sequence is wrong exactly when some text starts with the
sequence, which may end inside a character of it. -/
theorem isStart_iff : isStart bs ↔ ∃ text, bs <+: encode text := by
  have hopen : State.start.Open := by constructor <;> simp [State.start]
  unfold isStart
  constructor
  · intro h
    obtain ⟨t, ht⟩ := Option.isSome_iff_exists.1 h
    obtain ⟨more, u, hrun, hu⟩ := (State.open_of_run hopen ht).exists_run
    have hdecode : (decodeFrom .start (bs ++ more)).isSome := by
      rw [isSome_decodeFrom_iff, State.run_append, ht]
      exact ⟨u, hrun, hu⟩
    obtain ⟨cs, hcs⟩ := Option.isSome_iff_exists.1 hdecode
    refine ⟨.ofList cs, more, ?_⟩
    unfold encode
    rw [String.toList_ofList, encode_of_decodeFrom hcs]
  · rintro ⟨text, more, hmore⟩
    have hdecode := decode?_eq_some_iff.2 hmore.symm
    unfold decode? at hdecode
    obtain ⟨cs, hcs, -⟩ := Option.map_eq_some_iff.1 hdecode
    obtain ⟨t, ht, -⟩ := isSome_decodeFrom_iff.1 (Option.isSome_of_eq_some hcs)
    rw [State.run_append] at ht
    obtain ⟨u, hu, -⟩ := Option.bind_eq_some_iff.1 ht
    rw [hu]
    rfl

/-! ## Characters that are cut -/

/-- Octets that end inside a character: some octets of the last one are there, but not all. -/
def EndsInside (bs : List UInt8) : Prop :=
  ∃ text c k, 0 < k ∧ k < c.utf8Size ∧
    bs = encode text ++ (String.utf8EncodeChar c).take k

theorem encode_append (text more : String) :
    encode (text ++ more) = encode text ++ encode more := by
  simp [encode]

theorem encode_singleton (c : Char) : encode (.singleton c) = String.utf8EncodeChar c := by
  simp [encode]

theorem whole_or_endsInside (h : bs <+: cs.flatMap String.utf8EncodeChar) :
    (∃ text, encode text = bs) ∨ EndsInside bs := by
  induction cs generalizing bs with
  | nil => exact .inl ⟨"", (List.prefix_nil.1 h).symm⟩
  | cons c cs ih =>
    rw [List.flatMap_cons] at h
    rcases List.prefix_or_prefix_of_prefix h (List.prefix_append _ _) with hshort | ⟨rest, rfl⟩
    · rw [List.prefix_iff_eq_take] at hshort
      rcases Nat.eq_zero_or_pos bs.length with hzero | hpos
      · exact .inl ⟨"", (List.length_eq_zero_iff.1 hzero).symm⟩
      · rcases Nat.lt_or_ge bs.length (String.utf8EncodeChar c).length with hlt | hge
        · exact .inr ⟨"", c, bs.length, hpos, String.length_utf8EncodeChar c ▸ hlt, hshort⟩
        · rw [List.take_of_length_le hge] at hshort
          exact .inl ⟨.singleton c, by rw [encode_singleton, hshort]⟩
    · rw [List.prefix_append_right_inj] at h
      rcases ih h with ⟨text, rfl⟩ | ⟨text, d, k, hpos, hlt, rfl⟩
      · exact .inl ⟨.singleton c ++ text, by rw [encode_append, encode_singleton]⟩
      · refine .inr ⟨.singleton c ++ text, d, k, hpos, hlt, ?_⟩
        rw [encode_append, encode_singleton, List.append_assoc]

/-- **Cut texts.** The starts of texts are the texts and what ends inside a character. -/
theorem isStart_iff_whole_or_endsInside :
    isStart bs ↔ (∃ text, encode text = bs) ∨ EndsInside bs := by
  rw [isStart_iff]
  constructor
  · rintro ⟨text, htext⟩
    exact whole_or_endsInside htext
  · rintro (⟨text, rfl⟩ | ⟨text, c, k, -, -, rfl⟩)
    · exact ⟨text, List.prefix_rfl⟩
    · refine ⟨text ++ .singleton c, ?_⟩
      rw [encode_append, encode_singleton, List.prefix_append_right_inj]
      exact List.take_prefix k _

/-- The first octet of a character tells how many octets the character has. -/
theorem utf8Size_eq_of_head? {c d : Char}
    (h : (String.utf8EncodeChar c).head? = (String.utf8EncodeChar d).head?) :
    c.utf8Size = d.utf8Size := by
  obtain ⟨s, hs, hc⟩ := exists_first (n := c.toNat) c.valid
  obtain ⟨t, ht, hd⟩ := exists_first (n := d.toNat) d.valid
  have howed : s = t := by
    simp only [utf8EncodeChar_eq, List.head?_cons, Option.some.injEq] at h
    exact Option.some.inj (hs.symm.trans (h ▸ ht))
  rw [← String.length_utf8EncodeChar, ← String.length_utf8EncodeChar, utf8EncodeChar_eq,
    utf8EncodeChar_eq, List.length_cons, List.length_cons, length_tail, length_tail,
    ← owed_of_leads hs hc, ← owed_of_leads ht hd, howed]

theorem EndsInside.decode?_eq_none (h : EndsInside bs) : decode? bs = none := by
  obtain ⟨text, c, k, hpos, hlt, rfl⟩ := h
  unfold decode? encode
  rw [decodeFrom_encode]
  cases hdecode : decodeFrom .start ((String.utf8EncodeChar c).take k) with
  | none => rfl
  | some cs =>
    exfalso
    obtain ⟨b, bs, hcut⟩ : ∃ b bs, (String.utf8EncodeChar c).take k = b :: bs := by
      apply List.exists_cons_of_length_pos
      rw [List.length_take, String.length_utf8EncodeChar]
      omega
    rw [hcut] at hdecode
    obtain ⟨d, rest, hd⟩ := exists_char_of_decodeFrom hdecode
    have hwhole : String.utf8EncodeChar c =
        String.utf8EncodeChar d ++ (rest ++ (String.utf8EncodeChar c).drop k) := by
      rw [← List.append_assoc, ← hd, ← hcut, List.take_append_drop]
    have hsize : c.utf8Size = d.utf8Size := by
      apply utf8Size_eq_of_head?
      rw [hwhole, utf8EncodeChar_eq d]
      rfl
    have hlength := congrArg List.length (hcut.trans hd)
    rw [List.length_take, List.length_append, String.length_utf8EncodeChar,
      String.length_utf8EncodeChar] at hlength
    omega

end Runbook.Text.Utf8
