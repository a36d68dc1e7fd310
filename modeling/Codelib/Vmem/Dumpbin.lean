import Mathlib.Data.List.Flatten
import Codelib.Core.IntField

/-!
# Codelib.Vmem.Dumpbin

`dumpbin` of `perl/vmem.pl`, and **what it prints of packed records** (`dumpbin_packed`).

* A format is a list of pack codes of fixed width, each with its count, as `q3`. A modifier
  `<` or `>` gives a byte order, without one it is the host's; `!` makes `n`, `N`, `v` and `V`
  signed.
* `pack` writes 0 for a missing integer, and `unpack` stops repeating a code when the bytes run
  out. Reading with `$/` set to a reference returns that many bytes, or what is left.

The length of a record is found by packing a single 0.
-/

namespace Codelib.Vmem

/-! ### Formats -/

/-- The integer codes whose width is fixed. -/
inductive Code
  | c
  | C
  | s (order : Option ByteOrder)
  | S (order : Option ByteOrder)
  | l (order : Option ByteOrder)
  | L (order : Option ByteOrder)
  | q (order : Option ByteOrder)
  | Q (order : Option ByteOrder)
  | n (bang : Bool)
  | N (bang : Bool)
  | v (bang : Bool)
  | V (bang : Bool)
  deriving Repr, DecidableEq

/-- What a code stands for. -/
def Code.field (host : ByteOrder) : Code → IntField
  | c => ⟨1, true, host⟩
  | C => ⟨1, false, host⟩
  | s order => ⟨2, true, order.getD host⟩
  | S order => ⟨2, false, order.getD host⟩
  | l order => ⟨4, true, order.getD host⟩
  | L order => ⟨4, false, order.getD host⟩
  | q order => ⟨8, true, order.getD host⟩
  | Q order => ⟨8, false, order.getD host⟩
  | n bang => ⟨2, bang, .big⟩
  | N bang => ⟨4, bang, .big⟩
  | v bang => ⟨2, bang, .little⟩
  | V bang => ⟨4, bang, .little⟩

/-- Codes and their counts. The counts are not all 0, as a record of length 0 cannot be read. -/
structure Format where
  codes : List (Code × Nat)
  counted : ∃ k ∈ codes, 0 < k.2

namespace Format

variable (host : ByteOrder) (format : Format)

/-- The integers of a record. -/
def fields : List IntField := format.codes.flatMap fun k => List.replicate k.2 (k.1.field host)

def pack (xs : List Int) : Text := packAll (format.fields host) xs

def unpack (bytes : Text) : List Int := unpackAll (format.fields host) bytes

/-- `length(pack($format, 0))` -/
def recordLength : Nat := (format.pack host [0]).length

theorem width_pos (k : Code) : 0 < (k.field host).width := by
  cases k
  all_goals exact Nat.succ_pos _

theorem length_pack (xs : List Int) : (format.pack host xs).length = format.recordLength host := by
  rw [recordLength, pack, pack, length_packAll, length_packAll]

theorem recordLength_pos : 0 < format.recordLength host := by
  obtain ⟨k, hk, hcount⟩ := format.counted
  have hmem : k.1.field host ∈ format.fields host :=
    List.mem_flatMap.mpr ⟨k, hk, List.mem_replicate.mpr ⟨hcount.ne', rfl⟩⟩
  rw [recordLength, pack, length_packAll]
  exact List.sum_pos_iff_exists_pos_nat.mpr ⟨_, List.mem_map_of_mem hmem, width_pos host k.1⟩

end Format

/-! ### Printing -/

/-- An integer as a string. -/
def decimal (x : Int) : List Char :=
  if x < 0 then '-' :: Nat.toDigits 10 x.natAbs else Nat.toDigits 10 x.natAbs

/-- `join " ", @entry` -/
def line (entry : List Int) : List Char := [' '].intercalate (entry.map decimal)

/-- `say` -/
def say (s : List Char) : List Char := s ++ ['\n']

/-- `dumpbin`, with the content of the file at `$path`: what it prints. -/
def dumpbin (host : ByteOrder) (format : Format) (file : Text) : List Char :=
  if _h : file = [] then []
  else
    say (line (format.unpack host (file.take (format.recordLength host)))) ++
      dumpbin host format (file.drop (format.recordLength host))
termination_by file.length
decreasing_by
  rw [List.length_drop]
  exact Nat.sub_lt (List.length_pos_iff.mpr _h) (format.recordLength_pos host)

/-! ### What is printed -/

theorem newline_not_mem_decimal (x : Int) : '\n' ∉ decimal x := by
  have hdigits : '\n' ∉ Nat.toDigits 10 x.natAbs := by
    intro h
    exact absurd (Nat.isDigit_of_mem_toDigits (by decide) (by decide) h) (by decide)
  unfold decimal
  split
  · simpa using hdigits
  · exact hdigits

/-- An entry makes one line. -/
theorem newline_not_mem_line (entry : List Int) : '\n' ∉ line entry := by
  unfold line
  induction entry with
  | nil => exact List.not_mem_nil
  | cons x entry ih =>
      rcases entry with _ | ⟨y, entry⟩
      · rw [List.map_singleton, List.intercalate_singleton]
        exact newline_not_mem_decimal x
      · rw [List.map_cons, List.map_cons, List.intercalate_cons_cons]
        simp only [List.mem_append, not_or]
        exact ⟨⟨newline_not_mem_decimal x, by decide⟩, ih⟩

section Dumpbin

variable {host : ByteOrder} {format : Format}

theorem dumpbin_nil : dumpbin host format [] = [] := by
  rw [dumpbin, dif_pos rfl]

/-- A record is read as a whole. -/
theorem dumpbin_append {a : Text} (ha : a.length = format.recordLength host) (b : Text) :
    dumpbin host format (a ++ b) =
      say (line (format.unpack host a)) ++ dumpbin host format b := by
  have hne : a ++ b ≠ [] := by
    have hpos := format.recordLength_pos host
    intro h
    rw [← ha, (List.append_eq_nil_iff.mp h).1] at hpos
    exact absurd hpos (Nat.lt_irrefl 0)
  rw [dumpbin, dif_neg hne, List.take_left' ha, List.drop_left' ha]

/-- What is left at the end of the file is an entry of its own. -/
theorem dumpbin_part {part : Text} (hne : part ≠ []) (hlt : part.length < format.recordLength host) :
    dumpbin host format part = say (line (format.unpack host part)) := by
  rw [dumpbin, dif_neg hne, List.take_of_length_le hlt.le, List.drop_eq_nil_of_le hlt.le, dumpbin_nil,
    List.append_nil]

theorem dumpbin_pack {records : List (List Int)}
    (h : ∀ r ∈ records, List.Forall₂ IntField.InRange (format.fields host) r) (rest : Text) :
    dumpbin host format (records.flatMap (format.pack host) ++ rest) =
      records.flatMap (fun r => say (line r)) ++ dumpbin host format rest := by
  induction records with
  | nil => rfl
  | cons r records ih =>
      have hr : format.unpack host (format.pack host r) = r :=
        unpackAll_packAll (h r List.mem_cons_self)
      rw [List.flatMap_cons, List.append_assoc, dumpbin_append (format.length_pack host r), hr,
        ih fun s hs => h s (List.mem_cons_of_mem r hs), List.flatMap_cons, List.append_assoc]

end Dumpbin

/-- **What is printed of packed records**: one line for each, with its integers. A part of a record
at the end adds one line. -/
theorem dumpbin_packed (host : ByteOrder) (format : Format) (records : List (List Int))
    (h : ∀ r ∈ records, List.Forall₂ IntField.InRange (format.fields host) r) :
    dumpbin host format (records.flatMap (format.pack host)) =
        records.flatMap (fun r => say (line r)) ∧
      ∀ part, part ≠ [] → part.length < format.recordLength host →
        ∃ last, '\n' ∉ last ∧
          dumpbin host format (records.flatMap (format.pack host) ++ part) =
            records.flatMap (fun r => say (line r)) ++ say last := by
  constructor
  · have := dumpbin_pack h []
    rwa [List.append_nil, dumpbin_nil, List.append_nil] at this
  · intro part hne hlt
    refine ⟨line (format.unpack host part), newline_not_mem_line _, ?_⟩
    rw [dumpbin_pack h, dumpbin_part hne hlt]

/-- Two integers of two bytes. -/
def pair : Format := ⟨[(.s (some .little), 2)], by decide⟩

/-- Two records, and two lines. -/
theorem dumpbin_packed_pair :
    dumpbin .big pair [1, 0, 254, 255, 0, 128, 3, 0] = "1 -2\n-32768 3\n".toList := by
  have hrange : ∀ r ∈ [[1, -2], [-32768, 3]], List.Forall₂ IntField.InRange (pair.fields .big) r := by
    simp only [List.forall_mem_cons]
    exact ⟨.cons (by decide) (.cons (by decide) .nil), .cons (by decide) (.cons (by decide) .nil),
      List.forall_mem_nil _⟩
  have hpack : [[1, -2], [-32768, 3]].flatMap (pair.pack .big) = [1, 0, 254, 255, 0, 128, 3, 0] := by
    decide +kernel
  have hsay : [[1, -2], [-32768, 3]].flatMap (fun r => say (line r)) = "1 -2\n-32768 3\n".toList := by
    decide +kernel
  rw [← hpack, ← hsay]
  exact (dumpbin_packed .big pair [[1, -2], [-32768, 3]] hrange).1

end Codelib.Vmem
