import Mathlib.Tactic.Common
import ZipVersa.Lib.BigEndian

/-! `FLASHDRVR` on a NOR flash: erasing a sector sets all its bits, programming
can only clear bits, within one page. Addresses of the driver are bus addresses,
those of the device are 24 bits. -/

set_option autoImplicit false

namespace ZipVersa.Flash

open Lib

def flashbase : Nat := 0x01000000
def flashlen : Nat := 0x01000000
def pglenb : Nat := 256
def npages : Nat := 256
def szpagew : Nat := 64
def sectorszb : Nat := 65536

def sectorOf (address : Nat) : Nat := address / 65536 * 65536
def pageOf (address : Nat) : Nat := address / 256 * 256

theorem lt_pageOf (address : Nat) : address < pageOf (address + pglenb) := by
  simp only [pageOf, pglenb]
  omega

theorem pageOf_le (address : Nat) : pageOf address ≤ address := Nat.div_mul_le_self address 256

theorem pageOf_aligned (address : Nat) : pageOf address % 256 = 0 := Nat.mul_mod_left _ 256

theorem pageOf_next (address : Nat) : pageOf (address + pglenb) = pageOf address + 256 := by
  rw [pageOf, pglenb, Nat.add_div_right address (by decide), Nat.succ_mul, pageOf]

/-- The flash starts at a page. -/
theorem pageOf_base (address : Nat) : pageOf (flashbase + address) = flashbase + pageOf address := by
  have pages : flashbase = 256 * 65536 := rfl
  rw [pageOf, pageOf, pages, Nat.mul_add_div (by decide), Nat.add_mul, Nat.mul_comm 256]

theorem lt_pageOf_add (address : Nat) : address < pageOf address + 256 := by
  rw [← pageOf_next]
  exact lt_pageOf address

/-- The places of an aligned page. -/
theorem pageOf_eq_iff {page : Nat} (aligned : page % 256 = 0) (place : Nat) :
    pageOf place = page ↔ page ≤ place ∧ place < page + 256 := by
  rw [pageOf]
  omega

/-- The places of an aligned sector. -/
theorem sectorOf_eq_iff {sector : Nat} (aligned : sector % 65536 = 0) (place : Nat) :
    sectorOf place = sector ↔ sector ≤ place ∧ place < sector + 65536 := by
  rw [sectorOf]
  omega

/-- `addr & 0x0ffffff`. -/
def flashaddr (address : Nat) : Nat := address % 0x1000000

/-! ### The device -/

/-- The contents by device address. -/
abbrev Nor : Type := Nat → Byte

namespace Nor

/-- Sector erase. -/
def erase (flash : Nor) (address : Nat) : Nor := fun place =>
  if sectorOf place = sectorOf address then 0xff else flash place

/-- Page program; behind the end of the page the address starts over. -/
def program (flash : Nor) (address : Nat) : List Byte → Nor
  | [] => flash
  | byte :: rest =>
      program (fun place => if place = address then flash place &&& byte else flash place)
        (pageOf address + (address + 1) % 256) rest

/-- A word over the bus, the byte at the lowest address in its low bits. -/
def word (flash : Nor) (address : Nat) : BitVec 32 :=
  let place := flashaddr (address / 4 * 4)
  be32 (flash (place + 3)) (flash (place + 2)) (flash (place + 1)) (flash place)

/-- `m_fpga->readi`. -/
def readi (flash : Nor) (address count : Nat) : List (BitVec 32) :=
  (List.range count).map fun index => flash.word (address + 4 * index)

end Nor

/-! ### The driver -/

def buildword (bytes : Nat → Byte) : BitVec 32 := be32 (bytes 3) (bytes 2) (bytes 1) (bytes 0)

/-- Whether it returns `true`, and the flash behind it. -/
def eraseSector (flash : Nor) (sector : Nat) (verifyErase : Bool) : Bool × Nor :=
  let erased := flash.erase (flashaddr sector)
  (!verifyErase || (List.range npages).all fun page =>
    (erased.readi (flashbase + flashaddr sector + page * pglenb) szpagew).all (· == 0xffffffff),
    erased)

/-- `none` when an assertion fails. -/
def pageProgram (flash : Nor) (addr len : Nat) (data : Nat → Byte) (verifyWrite : Bool) :
    Option (Bool × Nor) :=
  if 0 < len ∧ len ≤ pglenb ∧ pageOf addr = pageOf (addr + len - 1) then
    let bswapd := (List.range ((len + 3) / 4)).map fun index =>
      buildword fun byte => data (4 * index + byte)
    if bswapd.all (· == 0xffffffff) then some (true, flash)
    else
      let written := flash.program (flashaddr addr) ((List.range len).map data)
      some (!verifyWrite || written.readi addr (len / 4) == bswapd.take (len / 4), written)
  else none

/-- What the locals that `write` does not initialise hold: the scratch buffer of a
sector, and the inner `len` of a page. -/
structure Locals where
  sbuf : Nat → Nat → Byte
  len : Nat → Nat

/-- `sbuf` behind `readi`, on a little-endian host. -/
def sbuf (flash : Nor) (base ln : Nat) (stale : Nat → Byte) (index : Nat) : Byte :=
  match (flash.readi base (ln / 4))[index / 4]? with
  | some word => octet word (index % 4)
  | none => stale index

/-- The loop over the bytes of a sector: `need_erase` and `newv`. -/
def compare (sbuf dp : Nat → Byte) (base : Nat) : (left index newv : Nat) → Bool × Nat
  | 0, _, newv => (false, newv)
  | left + 1, index, newv =>
      if sbuf index &&& dp index ≠ dp index then (true, index / 4 * 4 + base)
      else if sbuf index ≠ dp index ∧ newv = 0 then
        compare sbuf dp base left (index + 1) (index / 4 * 4 + base)
      else compare sbuf dp base left (index + 1) newv

/-- The inner `len`: its initial value is computed from what it held before. -/
def clipped (addr start junk : Nat) : Nat :=
  let len := BitVec.ofNat 32 addr + BitVec.ofNat 32 junk - BitVec.ofNat 32 start
  let last := BitVec.ofNat 32 start + len - 1
  if pageOf last.toNat ≠ pageOf start then pageOf (start + pglenb) - start else len.toNat

/-- The arguments of `write`, and its uninitialised locals. The sums `addr + len` and
`s + SECTORSZB` of the source wrap at 32 bits. Here they do not: for a range inside the
flash there is no difference, and a range that runs past the last address is refused by
`write` below where the source's assertion can let it through. -/
structure Request where
  addr : Nat
  len : Nat
  data : Nat → Byte
  verify : Bool
  locals : Locals

namespace Request

variable (request : Request)

/-- The loop over the pages of a sector that ends at `limit`, from `p` on. -/
def writePages (flash : Nor) (limit p : Nat) : Option (Bool × Nor) :=
  if p < limit ∧ p < request.addr + request.len then
    match pageProgram flash p (clipped request.addr p (request.locals.len p))
        (fun index => request.data (p - request.addr + index)) request.verify with
    | none => none
    | some (false, stopped) => some (false, stopped)
    | some (true, written) => writePages written limit (pageOf (p + pglenb))
  else some (true, flash)
termination_by limit - p
decreasing_by
  have ahead := lt_pageOf p
  omega

/-- What the range has in the sector at `s`. -/
def base (s : Nat) : Nat := if s < request.addr then request.addr else s

def ln (s : Nat) : Nat :=
  (if s + sectorszb < request.addr + request.len then s + sectorszb
    else request.addr + request.len) - request.base s

/-- `need_erase` and `newv` for the sector at `s`. -/
def compared (flash : Nor) (s : Nat) : Bool × Nat :=
  compare (sbuf flash (request.base s) (request.ln s) (request.locals.sbuf s))
    (fun index => request.data (request.base s - request.addr + index)) (request.base s)
    (request.ln s) 0 0

/-- One round of the loop over the sectors. -/
def writeSector (flash : Nor) (s : Nat) : Option (Bool × Nor) :=
  let (needErase, newv) := request.compared flash s
  if newv = 0 then some (true, flash)
  else if needErase then
    match eraseSector flash s request.verify with
    | (false, erased) => some (false, erased)
    | (true, erased) => request.writePages erased (s + sectorszb) (request.base s)
  else request.writePages flash (s + sectorszb) newv

def writeSectors (flash : Nor) : List Nat → Option (Bool × Nor)
  | [] => some (true, flash)
  | s :: rest =>
      match request.writeSector flash s with
      | none => none
      | some (false, stopped) => some (false, stopped)
      | some (true, written) => writeSectors written rest

/-- The sectors of the range. -/
def sectors : List Nat :=
  let first := sectorOf request.addr
  let limit := sectorOf (request.addr + request.len + sectorszb - 1)
  (List.range ((limit - first) / sectorszb)).map fun index => first + sectorszb * index

/-- `FLASHDRVR::write`; `verify_config` is always true. -/
def write (flash : Nor) : Option (Bool × Nor) :=
  if flashbase ≤ request.addr ∧ request.addr + request.len ≤ flashbase + flashlen then
    request.writeSectors flash request.sectors
  else none

end Request

/-! ### Operations of the device -/

namespace Nor

/-- Bytes put in place of those from `first` up to `limit`. -/
def overwrite (flash : Nor) (first limit : Nat) (want : Nat → Byte) : Nor := fun place =>
  if first ≤ place ∧ place < limit then want place else flash place

/-- The bits to be set are set. -/
def Admits (flash : Nor) (first limit : Nat) (want : Nat → Byte) : Prop :=
  ∀ place, first ≤ place → place < limit → flash place &&& want place = want place

theorem overwrite_empty (flash : Nor) {first limit : Nat} (want : Nat → Byte)
    (empty : limit ≤ first) : flash.overwrite first limit want = flash := by
  funext place
  rw [overwrite, if_neg (by omega)]

theorem Admits.overwrite {flash : Nor} {first middle limit : Nat} {want : Nat → Byte}
    (admits : flash.Admits first limit want) (low : first ≤ middle) :
    (flash.overwrite first middle want).Admits middle limit want := by
  intro place from_ below
  rw [Nor.overwrite, if_neg (by omega)]
  exact admits place (by omega) below

/-- What can be programmed without an erasure is what is there in the end. -/
theorem program_apply (flash : Nor) {address : Nat} {bytes : List Byte}
    (fits : address % 256 + bytes.length ≤ 256) (place : Nat) :
    flash.program address bytes place =
      if address ≤ place ∧ place < address + bytes.length then
        flash place &&& bytes.getD (place - address) 0
      else flash place := by
  induction bytes generalizing flash address with
  | nil =>
      rw [if_neg (by simp)]
      rfl
  | cons byte rest ih =>
      rw [List.length_cons] at fits
      rw [program]
      cases rest with
      | nil =>
          by_cases here : place = address
          · subst here
            simp [program]
          · rw [program, if_neg here, if_neg (by simp only [List.length_singleton]; omega)]
      | cons second others =>
          rw [List.length_cons] at fits
          have next : pageOf address + (address + 1) % 256 = address + 1 := by
            simp only [pageOf]
            omega
          rw [next, ih _ (by rw [List.length_cons]; omega)]
          by_cases here : place = address
          · subst here
            rw [if_neg (by omega), if_pos rfl, if_pos (by simp), Nat.sub_self]
            rfl
          · rw [if_neg here]
            by_cases inside : address + 1 ≤ place ∧ place < address + 1 + (second :: others).length
            · rw [if_pos inside, if_pos (by simp only [List.length_cons] at inside ⊢; omega)]
              have step : place - address = place - (address + 1) + 1 := by omega
              rw [step, List.getD_cons_succ]
            · rw [if_neg inside, if_neg (by simp only [List.length_cons] at inside ⊢; omega)]

/-- Aligned words of the flash on the bus. -/
theorem word_base (flash : Nor) {place : Nat} (aligned : place % 4 = 0) (inside : place < flashlen) :
    flash.word (flashbase + place) =
      be32 (flash (place + 3)) (flash (place + 2)) (flash (place + 1)) (flash place) := by
  have device : flashaddr ((flashbase + place) / 4 * 4) = place := by
    simp only [flashaddr, flashbase, flashlen] at *
    omega
  simp only [word, device]

end Nor

theorem sbuf_apply (flash : Nor) {place ln index : Nat} (stale : Nat → Byte)
    (aligned : place % 4 = 0) (inside : place + ln ≤ flashlen) :
    sbuf flash (flashbase + place) ln stale index =
      if index < ln / 4 * 4 then flash (place + index) else stale index := by
  rw [sbuf, Nor.readi, List.getElem?_map]
  split_ifs with read
  · have within : index / 4 < ln / 4 := by omega
    rw [List.getElem?_range within]
    simp only [Option.map_some]
    rw [show flashbase + place + 4 * (index / 4) = flashbase + (place + 4 * (index / 4)) by omega,
      Nor.word_base flash (by omega) (by omega)]
    obtain ⟨zero, one, two, three⟩ := octet_be32 (flash (place + 4 * (index / 4) + 3))
      (flash (place + 4 * (index / 4) + 2)) (flash (place + 4 * (index / 4) + 1))
      (flash (place + 4 * (index / 4)))
    have byte : index % 4 = 0 ∨ index % 4 = 1 ∨ index % 4 = 2 ∨ index % 4 = 3 := by omega
    rcases byte with byte | byte | byte | byte
    · rw [byte, zero]
      congr 1
      omega
    · rw [byte, one]
      congr 1
      omega
    · rw [byte, two]
      congr 1
      omega
    · rw [byte, three]
      congr 1
      omega
  · rw [List.getElem?_eq_none (by rw [List.length_range]; omega)]
    rfl

/-- Words of all ones are made of bytes of all ones. -/
theorem be32_ones {first second third fourth : Byte}
    (ones : be32 first second third fourth = 0xffffffff) :
    first = 0xff ∧ second = 0xff ∧ third = 0xff ∧ fourth = 0xff := by
  obtain ⟨zero, one, two, three⟩ := octet_be32 first second third fourth
  rw [ones] at zero one two three
  exact ⟨three.symm, two.symm, one.symm, zero.symm⟩

section Page

variable {flash : Nor} {first limit : Nat} {want data : Nat → Byte}
  (same : ∀ index, data index = want (first + index))
include same

theorem program_eq (page : limit ≤ pageOf first + 256) (admits : flash.Admits first limit want) :
    flash.program first ((List.range (limit - first)).map data) =
      flash.overwrite first limit want := by
  funext place
  have fits : first % 256 + (limit - first) ≤ 256 := by
    rw [pageOf] at page
    omega
  rw [Nor.program_apply flash (by rwa [List.length_map, List.length_range]), List.length_map,
    List.length_range, Nor.overwrite]
  by_cases inRange : first ≤ place ∧ place < limit
  · rw [if_pos (by omega), if_pos inRange, List.getD_eq_getElem?_getD, List.getElem?_map,
      List.getElem?_range (by omega)]
    simp only [Option.map_some, Option.getD_some, same]
    rw [show first + (place - first) = place by omega, admits place inRange.1 inRange.2]
  · rw [if_neg (by omega), if_neg inRange]

/-- Where all words are ones, so are the bytes. -/
theorem ones_of_empty (empty : ((List.range ((limit - first + 3) / 4)).map fun index =>
      buildword fun byte => data (4 * index + byte)).all (· == 0xffffffff) = true)
    {place : Nat} (low : first ≤ place) (high : place < limit) : want place = 0xff := by
  rw [List.all_map, List.all_eq_true] at empty
  have word := empty ((place - first) / 4) (List.mem_range.mpr (by omega))
  simp only [Function.comp, buildword, beq_iff_eq, same] at word
  obtain ⟨three, two, one, zero⟩ := be32_ones word
  have split := Nat.div_add_mod (place - first) 4
  have byte : (place - first) % 4 = 0 ∨ (place - first) % 4 = 1 ∨
      (place - first) % 4 = 2 ∨ (place - first) % 4 = 3 := by omega
  rcases byte with byte | byte | byte | byte
  · rw [show place = first + (4 * ((place - first) / 4) + 0) by omega]
    exact zero
  · rw [show place = first + (4 * ((place - first) / 4) + 1) by omega]
    exact one
  · rw [show place = first + (4 * ((place - first) / 4) + 2) by omega]
    exact two
  · rw [show place = first + (4 * ((place - first) / 4) + 3) by omega]
    exact three

/-- What is read back of a page written is what was to be written. -/
theorem readi_overwrite (inside : limit ≤ flashlen) (aligned : first % 4 = 0) :
    (flash.overwrite first limit want).readi (flashbase + first) ((limit - first) / 4) =
      ((List.range ((limit - first + 3) / 4)).map fun index =>
        buildword fun byte => data (4 * index + byte)).take ((limit - first) / 4) := by
  rw [← List.map_take, List.take_range, Nat.min_eq_left (by omega), Nor.readi]
  refine List.map_congr_left fun index member => ?_
  have below := List.mem_range.mp member
  rw [show flashbase + first + 4 * index = flashbase + (first + 4 * index) by omega,
    Nor.word_base _ (by omega) (by omega)]
  simp only [buildword, same, Nor.overwrite]
  rw [if_pos (by omega), if_pos (by omega), if_pos (by omega), if_pos (by omega)]
  rfl

/-- A page whose bits to be set are set is programmed, and passes its verification. -/
theorem pageProgram_eq (verify : Bool) (order : first < limit) (inside : limit ≤ flashlen)
    (aligned : first % 4 = 0) (page : limit ≤ pageOf first + 256)
    (admits : flash.Admits first limit want) :
    pageProgram flash (flashbase + first) (limit - first) data verify =
      some (true, flash.overwrite first limit want) := by
  have start := pageOf_le first
  have asserts : 0 < limit - first ∧ limit - first ≤ pglenb ∧
      pageOf (flashbase + first) = pageOf (flashbase + first + (limit - first) - 1) := by
    have last : flashbase + first + (limit - first) - 1 = flashbase + (limit - 1) := by omega
    rw [last, pageOf_base, pageOf_base,
      (pageOf_eq_iff (pageOf_aligned first) (limit - 1)).mpr (by omega), pglenb]
    omega
  rw [pageProgram, if_pos asserts]
  have device : flashaddr (flashbase + first) = first := by
    rw [flashaddr, flashbase, Nat.add_mod_left]
    exact Nat.mod_eq_of_lt (Nat.lt_of_lt_of_le order inside)
  simp only
  split_ifs with empty
  · have unchanged : flash = flash.overwrite first limit want := by
      funext place
      rw [Nor.overwrite]
      split_ifs with inRange
      · have kept := admits place inRange.1 inRange.2
        rw [ones_of_empty same empty inRange.1 inRange.2] at kept ⊢
        rw [← kept]
        exact (BitVec.and_allOnes).symm
      · rfl
    rw [← unchanged]
  · rw [device, program_eq same page admits, readi_overwrite same inside aligned]
    simp

end Page

/-- An erasure passes its verification. -/
theorem eraseSector_eq (flash : Nor) {sector : Nat} (verify : Bool) (aligned : sector % 65536 = 0)
    (inside : sector < flashlen) :
    eraseSector flash (flashbase + sector) verify = (true, flash.erase sector) := by
  have device : flashaddr (flashbase + sector) = sector := by
    simp only [flashaddr, flashbase, flashlen] at *
    omega
  have ones : ∀ page ∈ List.range npages,
      ((flash.erase sector).readi (flashbase + sector + page * pglenb) szpagew).all
        (· == 0xffffffff) = true := by
    intro page member
    have below := List.mem_range.mp member
    rw [Nor.readi, List.all_map, List.all_eq_true]
    intro index among
    have least := List.mem_range.mp among
    simp only [npages, pglenb, szpagew, flashlen] at *
    rw [Function.comp, show flashbase + sector + page * 256 + 4 * index =
      flashbase + (sector + page * 256 + 4 * index) by omega,
      Nor.word_base _ (by omega) (by simp only [flashlen]; omega)]
    have erased (offset : Nat) (near : offset < 4) :
        flash.erase sector (sector + page * 256 + 4 * index + offset) = 0xff := by
      rw [Nor.erase, if_pos]
      simp only [sectorOf]
      omega
    rw [erased 3 (by omega), erased 2 (by omega), erased 1 (by omega),
      show flash.erase sector (sector + page * 256 + 4 * index) = 0xff from erased 0 (by omega)]
    decide
  rw [eraseSector, device, List.all_eq_true.mpr ones, Bool.or_true]

/-- With the length of the range in it, the inner `len` stops at the end of the page or
of the range. -/
theorem clipped_eq {addr len start : Nat} (low : addr ≤ start) (below : start < addr + len)
    (inside : addr + len ≤ flashlen) :
    clipped (flashbase + addr) (flashbase + start) len =
      min (addr + len) (pageOf start + 256) - start := by
  have length : (BitVec.ofNat 32 (flashbase + addr) + BitVec.ofNat 32 len -
      BitVec.ofNat 32 (flashbase + start)).toNat = addr + len - start := by
    simp only [BitVec.toNat_sub, BitVec.toNat_add, BitVec.toNat_ofNat, flashbase, flashlen] at *
    omega
  have last : (BitVec.ofNat 32 (flashbase + start) + (BitVec.ofNat 32 (flashbase + addr) +
      BitVec.ofNat 32 len - BitVec.ofNat 32 (flashbase + start)) - 1).toNat =
      flashbase + addr + len - 1 := by
    rw [BitVec.toNat_sub, BitVec.toNat_add, length]
    simp only [BitVec.toNat_ofNat, BitVec.ofNat_eq_ofNat, flashbase, flashlen] at *
    omega
  have order : start ≤ addr + len - 1 := by omega
  have page := pageOf_le start
  have sum : flashbase + addr + len - 1 = flashbase + (addr + len - 1) := by omega
  simp only [clipped, length, last]
  rw [sum, pageOf_base, pageOf_base, pageOf_next, pageOf_base]
  by_cases same : pageOf (addr + len - 1) = pageOf start
  · have near := (pageOf_eq_iff (pageOf_aligned start) _).mp same
    rw [if_neg (not_not.mpr (congrArg _ same)), Nat.min_eq_left (by omega)]
  · have far := mt (pageOf_eq_iff (pageOf_aligned start) _).mpr same
    rw [if_pos (mt Nat.add_left_cancel same), Nat.min_eq_right (by omega)]
    omega

/-! ### The comparison -/

section Compare

variable {sbuf dp : Nat → Byte} {base : Nat}

theorem compare_erase (left index newv : Nat) :
    (compare sbuf dp base left index newv).1 = true ↔
      ∃ place, index ≤ place ∧ place < index + left ∧ sbuf place &&& dp place ≠ dp place := by
  induction left generalizing index newv with
  | zero =>
      simp only [compare, Bool.false_eq_true, false_iff]
      rintro ⟨place, low, high, -⟩
      omega
  | succ left ih =>
      rw [compare]
      split_ifs with clears differs
      · exact ⟨fun _ => ⟨index, by omega, by omega, clears⟩, fun _ => rfl⟩
      all_goals
        rw [ih]
        constructor
        · rintro ⟨place, low, high, needs⟩
          exact ⟨place, by omega, by omega, needs⟩
        · rintro ⟨place, low, high, needs⟩
          rcases Nat.eq_or_lt_of_le low with rfl | later
          · exact absurd needs clears
          · exact ⟨place, by omega, by omega, needs⟩

/-- An erasure is noted together with its place. -/
theorem compare_place (positive : 0 < base) (left index newv : Nat)
    (erase : (compare sbuf dp base left index newv).1 = true) :
    (compare sbuf dp base left index newv).2 ≠ 0 := by
  induction left generalizing index newv with
  | zero => cases erase
  | succ left ih =>
      rw [compare] at erase ⊢
      split_ifs at erase ⊢ with clears differs
      · simp only
        omega
      · exact ih _ _ erase
      · exact ih _ _ erase

/-- Without an erasure the place is that of the first difference, if there is one. -/
theorem compare_newv (positive : 0 < base) (left index newv : Nat)
    (keep : (compare sbuf dp base left index newv).1 = false) :
    (newv ≠ 0 ∧ (compare sbuf dp base left index newv).2 = newv) ∨
      (newv = 0 ∧ (compare sbuf dp base left index newv).2 = 0 ∧
        ∀ place, index ≤ place → place < index + left → sbuf place = dp place) ∨
      (newv = 0 ∧ ∃ place, index ≤ place ∧ place < index + left ∧
        (compare sbuf dp base left index newv).2 = place / 4 * 4 + base ∧
        ∀ early, index ≤ early → early < place → sbuf early = dp early) := by
  induction left generalizing index newv with
  | zero =>
      by_cases zero : newv = 0
      · exact .inr (.inl ⟨zero, zero, fun place low high => by omega⟩)
      · exact .inl ⟨zero, rfl⟩
  | succ left ih =>
      rw [compare] at keep ⊢
      split_ifs at keep ⊢ with clears differs
      · rcases ih _ _ keep with ⟨-, noted⟩ | ⟨zero, -⟩ | ⟨zero, -⟩
        · exact .inr (.inr ⟨differs.2, index, by omega, by omega, noted, fun early low high => by omega⟩)
        · omega
        · omega
      · rcases ih _ _ keep with ⟨some, noted⟩ | ⟨zero, noted, equal⟩ |
          ⟨zero, place, low, high, noted, equal⟩
        · exact .inl ⟨some, noted⟩
        · refine .inr (.inl ⟨zero, noted, fun place low high => ?_⟩)
          rcases Nat.eq_or_lt_of_le low with rfl | later
          · by_contra other
            exact differs ⟨other, zero⟩
          · exact equal place later (by omega)
        · refine .inr (.inr ⟨zero, place, by omega, by omega, noted, fun early from_ before => ?_⟩)
          rcases Nat.eq_or_lt_of_le from_ with rfl | later
          · by_contra other
            exact differs ⟨other, zero⟩
          · exact equal early later before

end Compare

/-! ### The range -/

/-- The start of a part is at a word. -/
theorem max_word {offset sector : Nat} (word : offset % 4 = 0) (aligned : sector % 65536 = 0) :
    max offset sector % 4 = 0 := by
  have whole : sector % 4 = 0 := by omega
  clear aligned
  omega

namespace Request

variable (request : Request)

/-- The range has a byte for a place of the device. -/
def Covers (place : Nat) : Prop :=
  request.addr ≤ flashbase + place ∧ flashbase + place < request.addr + request.len

/-- That byte. -/
def want (place : Nat) : Byte := request.data (flashbase + place - request.addr)

/-- A word-aligned range within the flash. -/
structure Fits : Prop where
  aligned : request.addr % 4 = 0
  above : flashbase ≤ request.addr
  below : request.addr + request.len ≤ flashbase + flashlen

/-- The bytes of the scratch buffer that no word was read to are those of the flash. -/
def Reads (flash : Nor) (s : Nat) : Prop :=
  ∀ index, request.ln s / 4 * 4 ≤ index → index < request.ln s →
    request.locals.sbuf s index = flash (flashaddr (request.base s + index))

/-- The uninitialised locals hold what they are used for: the inner `len` the length of
the range, the scratch buffer what is in the flash. -/
structure Benign (flash : Nor) : Prop where
  len : ∀ page, request.locals.len page = request.len
  sbuf : ∀ s ∈ request.sectors, request.Reads flash s

/-- A sector whose bits to be set are set, as far as the range covers it. -/
def Ready (flash : Nor) (sector : Nat) : Prop :=
  ∀ place, sectorOf place = sector → request.Covers place →
    flash place &&& request.want place = request.want place

/-- What becomes of a place: covered ones have their byte, the others keep theirs unless
their sector had to be erased. -/
structure Settled (before after : Nor) (place : Nat) : Prop where
  covered : request.Covers place → after place = request.want place
  kept : ¬ request.Covers place → request.Ready before (sectorOf place) → after place = before place
  erased : ¬ request.Covers place → ¬ request.Ready before (sectorOf place) → after place = 0xff

variable {request}

section Offset

variable {offset : Nat} (located : request.addr = flashbase + offset)
include located

theorem writePages_eq (inside : offset + request.len ≤ flashlen)
    (benign : ∀ page, request.locals.len page = request.len) {flash : Nor} {first top : Nat}
    (low : offset ≤ first) (aligned : first % 4 = 0) (whole : top % 256 = 0)
    (admits : flash.Admits first (min top (offset + request.len)) request.want) :
    request.writePages flash (flashbase + top) (flashbase + first) =
      some (true, flash.overwrite first (min top (offset + request.len)) request.want) := by
  induction steps : top - first using Nat.strongRecOn generalizing first flash with
  | _ steps ih =>
  rw [writePages]
  by_cases more : first < min top (offset + request.len)
  · rw [if_pos (by omega)]
    have next : pageOf (flashbase + first + pglenb) = flashbase + (pageOf first + 256) := by
      rw [Nat.add_assoc, pageOf_base, pageOf_next]
    have ahead : first < pageOf first + 256 ∧ pageOf first + 256 ≤ top ∧
        (pageOf first + 256) % 4 = 0 := by
      have start := pageOf_le first
      have page := pageOf_aligned first
      exact ⟨lt_pageOf_add first, by omega, by omega⟩
    have same : ∀ index, request.data (flashbase + first - request.addr + index) =
        request.want (first + index) := by
      intro index
      have place : flashbase + first - request.addr + index =
          flashbase + (first + index) - request.addr := by
        omega
      rw [want, place]
    have stop : clipped request.addr (flashbase + first) request.len =
        min (offset + request.len) (pageOf first + 256) - first := by
      rw [located, clipped_eq low (by omega) inside]
    have page := pageProgram_eq same request.verify (Nat.lt_min.mpr ⟨by omega, ahead.1⟩)
      (Nat.le_trans (Nat.min_le_left _ (pageOf first + 256)) inside) aligned (Nat.min_le_right _ _)
      (fun place from_ below => admits place from_ (by omega))
    rw [benign, stop, page]
    simp only [next]
    obtain ⟨above, within, whole⟩ := ahead
    rw [ih (top - (pageOf first + 256)) (by omega) (by omega) whole ?_ rfl]
    · congr 2
      funext place
      simp only [Nor.overwrite]
      split_ifs <;> first | rfl | omega
    · intro place from_ below
      rw [Nor.overwrite, if_neg (by omega)]
      exact admits place (by omega) below
  · rw [if_neg (by omega), Nor.overwrite_empty flash _ (by omega)]

/-- The bounds of the loops in the device. -/
theorem base_eq (sector : Nat) :
    request.base (flashbase + sector) = flashbase + max offset sector := by
  rw [base, located]
  split_ifs <;> omega

theorem ln_eq (sector : Nat) :
    request.ln (flashbase + sector) =
      min (sector + 65536) (offset + request.len) - max offset sector := by
  rw [ln, base_eq located, located]
  split_ifs with cut
  · simp only [sectorszb] at *
    omega
  · simp only [sectorszb] at *
    omega

theorem ready_iff {flash : Nor} {sector : Nat} (aligned : sector % 65536 = 0) :
    request.Ready flash sector ↔
      flash.Admits (max offset sector) (min (sector + 65536) (offset + request.len))
        request.want := by
  constructor
  · intro ready place low high
    refine ready place ?_ ?_
    · simp only [sectorOf]
      omega
    · rw [Covers]
      omega
  · intro admits place within covers
    rw [Covers] at covers
    simp only [sectorOf] at within
    exact admits place (by omega) (by omega)

end Offset

section Part

-- the part of the range in the sector at `s`, from `low` up to `high` in the device
variable {flash : Nor} {s low high : Nat} (start : request.base s = flashbase + low)
  (count : request.ln s = high - low) (source : request.addr ≤ flashbase + low)
  (word : low % 4 = 0) (order : low ≤ high) (inside : high ≤ flashlen)
  (reads : request.Reads flash s)

include start source in
theorem wanted (index : Nat) :
    request.data (request.base s - request.addr + index) = request.want (low + index) := by
  have place : flashbase + low - request.addr + index = flashbase + (low + index) - request.addr := by
    omega
  rw [want, start, place]

include start count word order inside reads

/-- The scratch buffer behind `readi`. -/
theorem scratch {index : Nat} (below : index < high - low) :
    sbuf flash (request.base s) (request.ln s) (request.locals.sbuf s) index =
      flash (low + index) := by
  have stale := reads index
  rw [start, count] at stale ⊢
  rw [sbuf_apply flash _ word (by omega)]
  split_ifs with read
  · rfl
  · have device : flashaddr (flashbase + low + index) = low + index := by
      simp only [flashaddr, flashbase, flashlen] at *
      omega
    rw [stale (by omega) below, device]

include source

/-- The comparison asks for an erasure exactly when a bit has to be set. -/
theorem compared_erase :
    (request.compared flash s).1 = true ↔ ¬ flash.Admits low high request.want := by
  rw [compared, compare_erase, Nor.Admits]
  constructor
  · rintro ⟨index, -, below, needs⟩ admits
    rw [Nat.zero_add, count] at below
    rw [scratch start count word order inside reads below, wanted start source] at needs
    exact needs (admits _ (by omega) (by omega))
  · intro refused
    by_contra none
    refine refused fun place from_ upTo => ?_
    by_contra needs
    have below : place - low < high - low := by omega
    refine none ⟨place - low, Nat.zero_le _, by rw [count]; omega, ?_⟩
    rw [scratch start count word order inside reads below, wanted start source,
      Nat.add_sub_cancel' from_]
    exact needs

/-- Without an erasure, nothing differs or programming starts at or before the first difference. -/
theorem compared_newv (keep : (request.compared flash s).1 = false) :
    ((request.compared flash s).2 = 0 ∧
      ∀ place, low ≤ place → place < high → flash place = request.want place) ∨
    ∃ first, (request.compared flash s).2 = flashbase + first ∧ low ≤ first ∧ first % 4 = 0 ∧
      ∀ place, low ≤ place → place < first → flash place = request.want place := by
  have positive : 0 < request.base s := by
    rw [start]
    exact Nat.add_pos_left (by decide) _
  have same (place : Nat) (from_ : low ≤ place) (upTo : place < high)
      (equal : sbuf flash (request.base s) (request.ln s) (request.locals.sbuf s) (place - low) =
        request.data (request.base s - request.addr + (place - low))) :
      flash place = request.want place := by
    have below : place - low < high - low := by omega
    rw [scratch start count word order inside reads below, wanted start source,
      Nat.add_sub_cancel' from_] at equal
    exact equal
  rcases compare_newv positive _ 0 0 keep with ⟨other, -⟩ | ⟨-, zero, equal⟩ |
    ⟨-, index, -, below, noted, equal⟩
  · exact absurd rfl other
  · refine .inl ⟨zero, fun place from_ upTo => same place from_ upTo ?_⟩
    exact equal (place - low) (Nat.zero_le _) (by rw [count]; omega)
  · rw [Nat.zero_add, count] at below
    refine .inr ⟨low + index / 4 * 4, ?_, by omega, by omega, fun place from_ upTo => ?_⟩
    · rw [compared, noted, start]
      omega
    · exact same place from_ (by omega) (equal (place - low) (Nat.zero_le _) (by omega))

end Part

section Offset

variable {offset : Nat} (located : request.addr = flashbase + offset)
include located

omit located

/-! The branches of `writeSector`. The equation is one of functions and the
comparison a variable, for the kernel not to run it. -/

theorem writeSector_eq : @writeSector = fun request flash s =>
    match request.compared flash s with
    | (needErase, newv) =>
        if newv = 0 then some (true, flash)
        else if needErase then
          match eraseSector flash s request.verify with
          | (false, erased) => some (false, erased)
          | (true, erased) => request.writePages erased (s + sectorszb) (request.base s)
        else request.writePages flash (s + sectorszb) newv := rfl

theorem writeSector_same {flash : Nor} {s : Nat} {result : Bool × Nat}
    (found : request.compared flash s = result) (same : result.2 = 0) :
    request.writeSector flash s = some (true, flash) := by
  rw [writeSector_eq]
  beta_reduce
  rw [found]
  exact if_pos same

theorem writeSector_erased {flash erased : Nor} {s : Nat} {result : Bool × Nat}
    (found : request.compared flash s = result) (noted : result.2 ≠ 0) (erase : result.1 = true)
    (erases : eraseSector flash s request.verify = (true, erased)) :
    request.writeSector flash s =
      request.writePages erased (s + sectorszb) (request.base s) := by
  rw [writeSector_eq]
  beta_reduce
  rw [found]
  simp only [if_neg noted, if_pos erase, erases]

theorem writeSector_kept {flash : Nor} {s : Nat} {result : Bool × Nat}
    (found : request.compared flash s = result) (noted : result.2 ≠ 0)
    (keep : result.1 = false) :
    request.writeSector flash s = request.writePages flash (s + sectorszb) result.2 := by
  rw [writeSector_eq]
  beta_reduce
  rw [found]
  simp only [if_neg noted, keep, Bool.false_eq_true, if_false]

theorem sector_top (sector : Nat) : flashbase + sector + sectorszb = flashbase + (sector + 65536) := by
  rw [sectorszb, Nat.add_assoc]

include located

section Sector

variable {flash : Nor} {sector : Nat} (inside : offset + request.len ≤ flashlen)
  (word : offset % 4 = 0) (reads : request.Reads flash (flashbase + sector))
  (aligned : sector % 65536 = 0) (starts : sector ≤ offset + request.len)
  (ends : offset < sector + 65536)
include inside word reads aligned starts ends

/-- A sector that has to be erased. -/
theorem writeSector_erases (benign : ∀ page, request.locals.len page = request.len)
    (small : sector < flashlen) (unready : ¬ request.Ready flash sector) :
    request.writeSector flash (flashbase + sector) =
      some (true, (flash.erase sector).overwrite (max offset sector)
        (min (sector + 65536) (offset + request.len)) request.want) := by
  have grid := sectorOf_eq_iff aligned
  have lowWord := max_word word aligned
  have whole : (sector + 65536) % 256 = 0 := by omega
  have erases := eraseSector_eq flash request.verify aligned small
  rw [ready_iff located aligned] at unready
  clear word aligned
  have erase : (request.compared flash (flashbase + sector)).1 = true := by
    rw [compared_erase (base_eq located sector) (ln_eq located sector) (by omega) lowWord (by omega)
      (by omega) reads]
    exact unready
  have positive : 0 < request.base (flashbase + sector) := by
    rw [base_eq located]
    exact Nat.add_pos_left (by decide) _
  have noted : (request.compared flash (flashbase + sector)).2 ≠ 0 :=
    compare_place positive _ 0 0 erase
  have erased : (flash.erase sector).Admits (max offset sector)
      (min (sector + 65536) (offset + request.len)) request.want := by
    intro place low high
    have within : sectorOf place = sectorOf sector := by
      rw [(grid place).mpr ⟨Nat.le_trans (Nat.le_max_right _ _) low,
        Nat.lt_of_lt_of_le high (Nat.min_le_left _ _)⟩,
        (grid sector).mpr ⟨Nat.le_refl sector, Nat.lt_add_of_pos_right (by decide)⟩]
    rw [Nor.erase, if_pos within]
    exact BitVec.allOnes_and
  have pages : request.writePages (flash.erase sector) (flashbase + (sector + 65536))
      (flashbase + max offset sector) = _ :=
    writePages_eq located inside benign (Nat.le_max_left _ _) lowWord whole erased
  rw [writeSector_erased rfl noted erase erases, base_eq located, sector_top, pages]

/-- A sector that needs no erasure. -/
theorem writeSector_keeps (benign : ∀ page, request.locals.len page = request.len)
    (ready : request.Ready flash sector) :
    ∃ first, max offset sector ≤ first ∧
      (∀ place, max offset sector ≤ place → place < first →
        place < min (sector + 65536) (offset + request.len) → flash place = request.want place) ∧
      request.writeSector flash (flashbase + sector) =
        some (true, flash.overwrite first (min (sector + 65536) (offset + request.len))
          request.want) := by
  have lowWord := max_word word aligned
  have blocks : (sector + 65536) % 256 = 0 := by omega
  rw [ready_iff located aligned] at ready
  clear word aligned
  have keep : (request.compared flash (flashbase + sector)).1 = false := by
    by_contra erase
    rw [Bool.not_eq_false, compared_erase (base_eq located sector) (ln_eq located sector) (by omega)
      lowWord (by omega) (by omega) reads] at erase
    exact erase ready
  rcases compared_newv (base_eq located sector) (ln_eq located sector) (by omega) lowWord (by omega)
    (by omega) reads keep with ⟨zero, equal⟩ | ⟨first, noted, low, whole, equal⟩
  · refine ⟨max (max offset sector) (min (sector + 65536) (offset + request.len)),
      Nat.le_max_left _ _, fun place from_ _ below => equal place from_ below, ?_⟩
    rw [Nor.overwrite_empty flash _ (Nat.le_max_right _ _)]
    exact writeSector_same rfl zero
  · have pages : request.writePages flash (flashbase + (sector + 65536)) (flashbase + first) = _ :=
      writePages_eq located inside benign (Nat.le_trans (Nat.le_max_left _ _) low) whole blocks
        fun place from_ below => ready place (Nat.le_trans low from_) below
    refine ⟨first, low, fun place from_ before _ => equal place from_ before, ?_⟩
    have some : (request.compared flash (flashbase + sector)).2 ≠ 0 := by
      rw [noted]
      exact Nat.ne_of_gt (Nat.add_pos_left (by decide) _)
    rw [writeSector_kept rfl some keep, noted, sector_top, pages]

/-- One sector. -/
theorem writeSector_settled (benign : ∀ page, request.locals.len page = request.len)
    (small : sector < flashlen) :
    ∃ after, request.writeSector flash (flashbase + sector) = some (true, after) ∧
      (∀ place, sectorOf place = sector → request.Settled flash after place) ∧
      ∀ place, sectorOf place ≠ sector → after place = flash place := by
  have keeps := writeSector_keeps located inside word reads aligned starts ends benign
  have erases := writeSector_erases located inside word reads aligned starts ends benign small
  have grid := sectorOf_eq_iff aligned
  clear word aligned
  have covers (place : Nat) (within : sectorOf place = sector) :
      request.Covers place ↔
        max offset sector ≤ place ∧ place < min (sector + 65536) (offset + request.len) := by
    rw [grid] at within
    rw [Covers, located]
    omega
  have apart (place : Nat) (other : sectorOf place ≠ sector) :
      ¬ (max offset sector ≤ place ∧ place < min (sector + 65536) (offset + request.len)) := by
    rw [Ne, grid] at other
    omega
  by_cases ready : request.Ready flash sector
  · obtain ⟨first, low, equal, writes⟩ := keeps ready
    refine ⟨_, writes, fun place within => ⟨?_, ?_, ?_⟩, fun place other => ?_⟩
    · intro covered
      obtain ⟨from_, below⟩ := (covers place within).mp covered
      rw [Nor.overwrite]
      split_ifs with programmed
      · rfl
      · refine equal place from_ ?_ below
        by_contra late
        exact programmed ⟨Nat.le_of_not_lt late, below⟩
    · intro outside _
      rw [covers place within] at outside
      rw [Nor.overwrite, if_neg fun inRange => outside ⟨Nat.le_trans low inRange.1, inRange.2⟩]
    · intro _ unready
      rw [within] at unready
      exact absurd ready unready
    · rw [Nor.overwrite, if_neg fun inRange => apart place other ⟨Nat.le_trans low inRange.1, inRange.2⟩]
  · refine ⟨_, erases ready, fun place within => ⟨?_, ?_, ?_⟩, fun place other => ?_⟩
    · intro covered
      rw [Nor.overwrite, if_pos ((covers place within).mp covered)]
    · intro _ kept
      rw [within] at kept
      exact absurd kept ready
    · intro outside _
      have start : sectorOf place = sectorOf sector := by
        rw [within, (grid sector).mpr (by omega)]
      rw [Nor.overwrite, if_neg fun inRange => outside ((covers place within).mpr inRange), Nor.erase,
        if_pos start]
    · have elsewhere : sectorOf place ≠ sectorOf sector := by
        rw [(grid sector).mpr (by omega)]
        exact other
      rw [Nor.overwrite, if_neg (apart place other), Nor.erase, if_neg elsewhere]

end Sector

omit located in
/-- What settles a place depends on its sector only. -/
theorem Settled.of_sector {before middle after : Nor} {place : Nat}
    (settled : request.Settled middle after place)
    (same : ∀ other, sectorOf other = sectorOf place → middle other = before other) :
    request.Settled before after place := by
  have ready : request.Ready before (sectorOf place) ↔ request.Ready middle (sectorOf place) := by
    constructor
    · intro ready other within covers
      rw [same other within]
      exact ready other within covers
    · intro ready other within covers
      rw [← same other within]
      exact ready other within covers
  refine ⟨settled.covered, ?_, ?_⟩
  · intro outside kept
    rw [settled.kept outside (ready.mp kept), same place rfl]
  · intro outside needs
    exact settled.erased outside fun kept => needs (ready.mpr kept)

/-- What is read of a sector lies in it. -/
theorem sectorOf_read (inside : offset + request.len ≤ flashlen) {sector index : Nat}
    (aligned : sector % 65536 = 0) (below : index < request.ln (flashbase + sector)) :
    sectorOf (flashaddr (request.base (flashbase + sector) + index)) = sector := by
  rw [ln_eq located] at below
  rw [base_eq located, Nat.add_assoc]
  have low : sector ≤ max offset sector + index :=
    Nat.le_trans (Nat.le_max_right _ _) (Nat.le_add_right _ _)
  have high : max offset sector + index < min (sector + 65536) (offset + request.len) := by
    rw [Nat.add_comm]
    exact Nat.lt_sub_iff_add_lt.mp below
  have top := Nat.lt_of_lt_of_le high (Nat.min_le_left _ _)
  have small := Nat.lt_of_lt_of_le high (Nat.le_trans (Nat.min_le_right _ _) inside)
  generalize max offset sector + index = place at low top small
  have device : flashaddr (flashbase + place) = place := by
    rw [flashaddr, flashbase, Nat.add_mod_left]
    exact Nat.mod_eq_of_lt small
  rw [device]
  exact (sectorOf_eq_iff aligned place).mpr ⟨low, top⟩

/-- The loop over the sectors, each of which is met once. -/
theorem writeSectors_settled (inside : offset + request.len ≤ flashlen) (word : offset % 4 = 0)
    (benign : ∀ page, request.locals.len page = request.len) {flash : Nor} {todo : List Nat}
    (reads : ∀ sector ∈ todo, request.Reads flash (flashbase + sector)) (once : todo.Nodup)
    (each : ∀ sector ∈ todo, sector % 65536 = 0 ∧ sector ≤ offset + request.len ∧
      offset < sector + 65536 ∧ sector < flashlen) :
    ∃ after, request.writeSectors flash (todo.map (flashbase + ·)) = some (true, after) ∧
      ∀ place, (sectorOf place ∈ todo → request.Settled flash after place) ∧
        (sectorOf place ∉ todo → after place = flash place) := by
  induction todo generalizing flash with
  | nil => exact ⟨flash, rfl, fun place => ⟨nofun, fun _ => rfl⟩⟩
  | cons sector rest ih =>
      obtain ⟨aligned, starts, ends, small⟩ := each sector (.head _)
      obtain ⟨middle, first, done, others⟩ := writeSector_settled located inside word
        (reads sector (.head _)) aligned starts ends benign small
      obtain ⟨fresh, once'⟩ := List.nodup_cons.mp once
      have reads' : ∀ sector ∈ rest, request.Reads middle (flashbase + sector) := by
        intro other among index unread below
        rw [reads other (.tail _ among) index unread below]
        obtain ⟨whole, -, -, -⟩ := each other (.tail _ among)
        have apart : other ≠ sector := fun same => fresh (same ▸ among)
        refine (others _ ?_).symm
        rwa [sectorOf_read located inside whole below]
      obtain ⟨after, later, settles⟩ := ih reads' once' fun sector among => each sector (.tail _ among)
      refine ⟨after, ?_, fun place => ⟨fun among => ?_, fun apart => ?_⟩⟩
      · rw [List.map_cons, writeSectors, first]
        exact later
      · rcases List.mem_cons.mp among with here | there
        · have last := (settles place).2 (fun among => fresh (here ▸ among))
          have settled := done place here
          exact ⟨fun covered => last.trans (settled.covered covered),
            fun outside kept => last.trans (settled.kept outside kept),
            fun outside needs => last.trans (settled.erased outside needs)⟩
        · refine ((settles place).1 there).of_sector fun other within => others other ?_
          rw [within]
          exact fun same => fresh (same ▸ there)
      · rw [(settles place).2 fun among => apart (.tail _ among),
          others place fun same => apart (same ▸ .head _)]

/-- The sectors met, in the device. -/
theorem sectors_eq :
    request.sectors = ((List.range ((offset + request.len + 65535) / 65536 - offset / 65536)).map
      fun index => sectorOf offset + 65536 * index).map (flashbase + ·) := by
  have rounds : (sectorOf (request.addr + request.len + sectorszb - 1) - sectorOf request.addr) /
      sectorszb = (offset + request.len + 65535) / 65536 - offset / 65536 := by
    rw [located]
    simp only [sectorOf, flashbase, sectorszb]
    omega
  have first : sectorOf request.addr = flashbase + sectorOf offset := by
    rw [located]
    simp only [sectorOf, flashbase]
    omega
  rw [sectors, rounds, List.map_map]
  refine List.map_congr_left fun index _ => ?_
  rw [Function.comp_apply, first, Nat.add_assoc, sectorszb]

end Offset

/-- Whole words leave nothing unread. -/
theorem reads_of_words (fits : request.Fits) (words : request.len % 4 = 0) {flash : Nor} :
    ∀ s ∈ request.sectors, request.Reads flash s := by
  obtain ⟨offset, located⟩ := Nat.exists_eq_add_of_le fits.above
  have aligned := fits.aligned
  intro s among index unread below
  rw [sectors_eq located, List.map_map] at among
  obtain ⟨count, -, rfl⟩ := List.mem_map.mp among
  rw [Function.comp_apply, ln_eq located] at unread below
  simp only [flashbase, sectorOf] at *
  omega

theorem write_eq : @write = fun request flash =>
    if flashbase ≤ request.addr ∧ request.addr + request.len ≤ flashbase + flashlen then
      request.writeSectors flash request.sectors
    else none := rfl

theorem write_settled (fits : request.Fits) {flash : Nor} (benign : request.Benign flash) :
    ∃ after, request.write flash = some (true, after) ∧
      ∀ place, request.Settled flash after place := by
  obtain ⟨offset, located⟩ := Nat.exists_eq_add_of_le fits.above
  have aligned := fits.aligned
  have below := fits.below
  have inside : offset + request.len ≤ flashlen := by omega
  have word : offset % 4 = 0 := by
    simp only [flashbase] at located
    omega
  have listed := sectors_eq located
  have among (sector : Nat) :
      sector ∈ (List.range ((offset + request.len + 65535) / 65536 - offset / 65536)).map
        (fun index => sectorOf offset + 65536 * index) ↔
      sector % 65536 = 0 ∧ offset < sector + 65536 ∧ sector < offset + request.len := by
    rw [List.mem_map]
    constructor
    · rintro ⟨index, member, rfl⟩
      have count := List.mem_range.mp member
      simp only [sectorOf]
      omega
    · rintro ⟨whole, ends, starts⟩
      refine ⟨sector / 65536 - offset / 65536, List.mem_range.mpr (by omega), ?_⟩
      simp only [sectorOf]
      omega
  have reads : ∀ sector ∈ (List.range ((offset + request.len + 65535) / 65536 - offset / 65536)).map
      (fun index => sectorOf offset + 65536 * index),
      request.Reads flash (flashbase + sector) := by
    intro sector member
    refine benign.sbuf _ ?_
    rw [listed]
    exact List.mem_map_of_mem member
  have once : ((List.range ((offset + request.len + 65535) / 65536 - offset / 65536)).map
      (fun index => sectorOf offset + 65536 * index)).Nodup := by
    refine List.Pairwise.map _ (fun one other differ => ?_) List.nodup_range
    omega
  obtain ⟨after, writes, settles⟩ :=
    writeSectors_settled located inside word benign.len reads once fun sector member => by
      obtain ⟨whole, ends, starts⟩ := (among sector).mp member
      exact ⟨whole, by omega, ends, by omega⟩
  refine ⟨after, ?_, fun place => ?_⟩
  · rw [write_eq]
    beta_reduce
    rw [if_pos ⟨fits.above, below⟩, listed]
    exact writes
  · by_cases member : sectorOf place ∈ (List.range
        ((offset + request.len + 65535) / 65536 - offset / 65536)).map
        (fun index => sectorOf offset + 65536 * index)
    · exact (settles place).1 member
    · -- no byte of the range is in the sector of this place
      have missed : ∀ other, sectorOf other = sectorOf place → ¬ request.Covers other := by
        intro other same covers
        rw [among, ← same] at member
        rw [Covers, located] at covers
        simp only [sectorOf] at member
        omega
      have kept := (settles place).2 member
      refine ⟨fun covered => absurd covered (missed place rfl), fun _ _ => kept, fun _ needs => ?_⟩
      exact absurd (fun other within covers => absurd covers (missed other within)) needs

end Request

/-- A write to a word-aligned range returns `true`, the range then holds its data, and a
byte outside the range is unchanged unless the range needed a bit set in the same sector:
the sector has then been erased. -/
theorem flash_write_correct (request : Request) (flash : Nor) (fits : request.Fits)
    (benign : request.Benign flash) :
    ∃ after, request.write flash = some (true, after) ∧
      (∀ index, index < request.len →
        after (flashaddr (request.addr + index)) = request.data index) ∧
      ∀ place, ¬ request.Covers place →
        (request.Ready flash (sectorOf place) → after place = flash place) ∧
          (¬ request.Ready flash (sectorOf place) → after place = 0xff) := by
  obtain ⟨after, writes, settles⟩ := Request.write_settled fits benign
  refine ⟨after, writes, fun index below => ?_, fun place outside =>
    ⟨(settles place).kept outside, (settles place).erased outside⟩⟩
  obtain ⟨offset, located⟩ := Nat.exists_eq_add_of_le fits.above
  have size := fits.below
  have device : flashaddr (request.addr + index) = offset + index := by
    rw [located]
    simp only [flashaddr, flashbase, flashlen] at *
    omega
  have covers : request.Covers (offset + index) := by
    rw [Request.Covers]
    omega
  have source : flashbase + (offset + index) - request.addr = index := by omega
  rw [device, (settles _).covered covers, Request.want, source]

/-- A device with a used word at its start, and another one further on in the sector. -/
def usedFlash : Nor := fun place => if place = 0 ∨ place = 8 then 0 else 0xff

/-- One word for the start of the device. -/
def oneWord : Request where
  addr := flashbase
  len := 4
  data index := BitVec.ofNat 8 (index + 1)
  verify := true
  locals := ⟨fun _ _ => 0, fun _ => 4⟩

theorem oneWord_fits : oneWord.Fits := ⟨by decide, by decide, by decide⟩

theorem oneWord_benign (flash : Nor) : oneWord.Benign flash :=
  ⟨fun _ => rfl, Request.reads_of_words oneWord_fits rfl⟩

/-- The first byte needs a bit that is not set. -/
theorem oneWord_unready : ¬ oneWord.Ready usedFlash 0 := by
  intro ready
  have first := ready 0 (by decide) (by unfold Request.Covers; decide)
  exact absurd first (by decide)

theorem oneWord_written :
    ∃ after, oneWord.write usedFlash = some (true, after) ∧ after 0 = 1 ∧ after 3 = 4 ∧
      after 100 = 0xff := by
  obtain ⟨after, writes, range, outside⟩ :=
    flash_write_correct oneWord usedFlash oneWord_fits (oneWord_benign _)
  refine ⟨after, writes, range 0 (by decide), range 3 (by decide), ?_⟩
  exact (outside 100 (by unfold Request.Covers; decide)).2 oneWord_unready

/-- The erasure takes a byte outside the range with it. -/
theorem neighbour_erased :
    ¬ ∀ (request : Request) (flash after : Nor), request.Fits →
        request.write flash = some (true, after) →
          (∀ index, index < request.len →
            after (flashaddr (request.addr + index)) = request.data index) ∧
          ∀ place, ¬ request.Covers place → after place = flash place := by
  intro correct
  obtain ⟨after, writes, settles⟩ := Request.write_settled oneWord_fits (oneWord_benign usedFlash)
  have outside : ¬ oneWord.Covers 8 := by
    unfold Request.Covers
    decide
  have erased := (settles 8).erased outside oneWord_unready
  have same := (correct oneWord usedFlash after oneWord_fits writes).2 8 outside
  rw [erased] at same
  exact absurd same (by decide)

end ZipVersa.Flash
