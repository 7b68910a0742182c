import Runbook.Proofs.Text.Utf8
import Runbook.Repository

/-!
# What is taken for a text file

Whether a file is text is read off its first octets. A character that the end of these octets cuts
is let pass, so no text without NUL is refused, however long it is (`isTextFile_iff_startsText`). A
file that is seen whole but ends inside a character is let pass as well, although it cannot be read:
of the files that are seen whole, these are the only ones that are misjudged
(`isTextFile_iff_of_short`).
-/

namespace Runbook

open Files
open Text.Utf8 (encode decode? EndsInside)

variable {d : Disk} {path : String} {content : List UInt8} {executable : Bool}

theorem looksLikeText_iff : Disk.looksLikeText content ↔
    0 ∉ content.take 8192 ∧ ∃ text, content.take 8192 <+: encode text := by
  rw [← Text.Utf8.isStart_iff]
  simp [Disk.looksLikeText, Disk.sniffLength]

theorem isTextFile_of_lookup (h : d.lookup path = .ok (.file content executable)) :
    d.isTextFile path = Disk.looksLikeText content := by
  unfold Disk.isTextFile
  rw [h]

theorem read_eq_notUtf8_iff (h : d.lookup path = .ok (.file content executable)) :
    d.read path = .error .notUtf8 ↔ decode? content = none := by
  simp only [Disk.read, h, bind, Except.bind]
  cases decode? content with
  | none => exact iff_of_true rfl rfl
  | some text => exact iff_of_false (by rintro ⟨⟩) (by rintro ⟨⟩)

theorem isTextFile_of_isDocument {r : Repository} (hprobe : r.probe = .ofDisk d)
    (h : r.isDocument path) : d.isTextFile path := by
  unfold Repository.isDocument at h
  rw [hprobe] at h
  exact (Bool.and_eq_true_iff.1 h).2

/-- **First octets.** A file is taken for text exactly when its first octets have no NUL and start
some text; so every text without NUL is, whichever octet of a character these octets end with. -/
theorem isTextFile_iff_startsText (h : d.lookup path = .ok (.file content executable)) :
    (d.isTextFile path ↔ 0 ∉ content.take 8192 ∧ ∃ text, content.take 8192 <+: encode text) ∧
      ∀ text, content = encode text → 0 ∉ content → d.isTextFile path := by
  rw [isTextFile_of_lookup h, looksLikeText_iff]
  refine ⟨Iff.rfl, ?_⟩
  rintro text rfl hnul
  exact ⟨fun hmem => hnul (List.mem_of_mem_take hmem), text, List.take_prefix 8192 _⟩

/-- A text of some letters `a` with a character of four octets behind them. -/
def longText (n : Nat) : String :=
  .ofList (.replicate n 'a' ++ ['😀'])

theorem encode_longText (n : Nat) :
    encode (longText n) = .replicate n 0x61 ++ [0xF0, 0x9F, 0x98, 0x80] := by
  unfold longText encode
  rw [String.toList_ofList, List.flatMap_append]
  congr 1
  induction n with
  | zero => rfl
  | succ n ih => rw [List.replicate_succ, List.flatMap_cons, ih]; rfl

/-- A disk with a text in which the first octets end behind two of the four of a character. -/
def longDisk : Disk :=
  ⟨[(["long.pipe".toList], .file (encode (longText 8190)) false)]⟩

theorem isTextFile_iff_startsText_longDisk :
    longDisk.lookup "long.pipe" = .ok (.file (encode (longText 8190)) false) ∧
      8192 < (encode (longText 8190)).length ∧
      (encode (longText 8190)).take 8192 = .replicate 8190 0x61 ++ [0xF0, 0x9F] ∧
      longDisk.isTextFile "long.pipe" := by
  have hlookup : longDisk.lookup "long.pipe" =
      .ok (.file (encode (longText 8190)) false) := by
    rfl
  refine ⟨hlookup, ?_, ?_, (isTextFile_iff_startsText hlookup).2 _ rfl ?_⟩
  · rw [encode_longText, List.length_append, List.length_replicate]
    decide
  · rw [encode_longText, List.take_append, List.length_replicate,
      List.take_of_length_le (by rw [List.length_replicate]; decide)]
    rfl
  · rw [encode_longText]
    intro hmem
    rcases List.mem_append.1 hmem with hmem | hmem
    · cases List.eq_of_mem_replicate hmem
    · revert hmem
      decide

/-- **Short files.** A file that is seen whole is taken for text exactly when it is a text without
NUL, so that a document can be read, unless it has no NUL and ends inside a character. Then it is
taken for text and cannot be read. -/
theorem isTextFile_iff_of_short (h : d.lookup path = .ok (.file content executable))
    (hshort : content.length ≤ 8192) :
    (¬(0 ∉ content ∧ EndsInside content) →
      (d.isTextFile path ↔ 0 ∉ content ∧ ∃ text, encode text = content) ∧
        ∀ r : Repository, r.probe = .ofDisk d → r.isDocument path →
          d.read path ≠ .error .notUtf8) ∧
      (0 ∉ content → EndsInside content →
        d.isTextFile path ∧ d.read path = .error .notUtf8) := by
  have htext : d.isTextFile path ↔
      (0 ∉ content ∧ ∃ text, encode text = content) ∨ 0 ∉ content ∧ EndsInside content := by
    rw [isTextFile_of_lookup h, looksLikeText_iff, List.take_of_length_le hshort,
      ← Text.Utf8.isStart_iff, Text.Utf8.isStart_iff_whole_or_endsInside, and_or_left]
  have hread := read_eq_notUtf8_iff h
  constructor
  · intro hwhole
    refine ⟨htext.trans (or_iff_left hwhole), fun r hprobe hdocument hfails => ?_⟩
    obtain ⟨-, text, hcontent⟩ | hcut := htext.1 (isTextFile_of_isDocument hprobe hdocument)
    · cases (hread.1 hfails).symm.trans (Text.Utf8.decode?_eq_some_iff.2 hcontent)
    · exact hwhole hcut
  · exact fun hnul hcut => ⟨htext.2 (.inr ⟨hnul, hcut⟩), hread.2 hcut.decode?_eq_none⟩

/-- A disk with a file that ends behind a character of two octets. -/
def wholeDisk : Disk :=
  ⟨[(["whole.pipe".toList], .file [0x6C, 0x73, 0x20, 0xC3, 0xA9] false)]⟩

theorem isTextFile_iff_of_short_wholeDisk :
    wholeDisk.lookup "whole.pipe" = .ok (.file [0x6C, 0x73, 0x20, 0xC3, 0xA9] false) ∧
      ¬EndsInside [0x6C, 0x73, 0x20, 0xC3, 0xA9] ∧ wholeDisk.isTextFile "whole.pipe" ∧
      (Repository.mk {} (.ofDisk wholeDisk) Shell.posix).isDocument "whole.pipe" ∧
      wholeDisk.read "whole.pipe" ≠ .error .notUtf8 := by
  have hlookup : wholeDisk.lookup "whole.pipe" =
      .ok (.file [0x6C, 0x73, 0x20, 0xC3, 0xA9] false) := by
    rfl
  have hdocument : (Repository.mk {} (.ofDisk wholeDisk) Shell.posix).isDocument "whole.pipe" := by
    decide +kernel
  have hwhole : ¬EndsInside [0x6C, 0x73, 0x20, 0xC3, 0xA9] := fun hcut =>
    absurd hcut.decode?_eq_none (by decide +kernel)
  obtain ⟨htext, hread⟩ :=
    (isTextFile_iff_of_short hlookup (by decide)).1 fun hcut => hwhole hcut.2
  exact ⟨hlookup, hwhole, htext.2 ⟨by decide, "ls é", by decide +kernel⟩, hdocument,
    hread _ rfl hdocument⟩

/-- A disk with a file that ends behind the first of two octets. -/
def cutDisk : Disk :=
  ⟨[(["cut.pipe".toList], .file [0x6C, 0x73, 0x20, 0xC3] false)]⟩

/-- The file is taken for text and for a document, but it is no text and cannot be read. -/
theorem not_isTextFile_iff_cutDisk :
    cutDisk.lookup "cut.pipe" = .ok (.file [0x6C, 0x73, 0x20, 0xC3] false) ∧
      (¬∃ text, encode text = [0x6C, 0x73, 0x20, 0xC3]) ∧ cutDisk.isTextFile "cut.pipe" ∧
      (Repository.mk {} (.ofDisk cutDisk) Shell.posix).isDocument "cut.pipe" ∧
      cutDisk.read "cut.pipe" = .error .notUtf8 := by
  have hnone : decode? [0x6C, 0x73, 0x20, 0xC3] = none := by
    decide +kernel
  refine ⟨rfl, ?_, by decide +kernel, by decide +kernel, rfl⟩
  rintro ⟨text, htext⟩
  cases hnone.symm.trans (Text.Utf8.decode?_eq_some_iff.2 htext)

end Runbook
