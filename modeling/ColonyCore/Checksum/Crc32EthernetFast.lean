/-
  ColonyCore.Checksum.Crc32EthernetFast
  **THE TABLE-DRIVEN 32-BIT CRC OF `Cpl/Checksum/Crc32EthernetFast.cpp`.**

  The accumulator is the 32-bit `m_crc`, started at all ones and not inverted
  at the end.  `finalize` appends it most significant byte first.

    • `accumulate_eq`          — the register is the remainder of the message, bit by bit,
    • `accumulate_eq_zero_iff` — the appended bytes, and no others, drive it to zero: this
      is the check `isOkay` makes.
-/
import ColonyCore.Lib.LittleEndian
import ColonyCore.Lib.CyclicCode

namespace ColonyCore.Checksum.Crc32EthernetFast

open LittleEndian CyclicCode

/-- `table_`: the CRC of each single byte. -/
def table : List (BitVec 32) :=
  [0x00000000, 0x04C11DB7, 0x09823B6E, 0x0D4326D9, 0x130476DC, 0x17C56B6B, 0x1A864DB2, 0x1E475005,
   0x2608EDB8, 0x22C9F00F, 0x2F8AD6D6, 0x2B4BCB61, 0x350C9B64, 0x31CD86D3, 0x3C8EA00A, 0x384FBDBD,
   0x4C11DB70, 0x48D0C6C7, 0x4593E01E, 0x4152FDA9, 0x5F15ADAC, 0x5BD4B01B, 0x569796C2, 0x52568B75,
   0x6A1936C8, 0x6ED82B7F, 0x639B0DA6, 0x675A1011, 0x791D4014, 0x7DDC5DA3, 0x709F7B7A, 0x745E66CD,
   0x9823B6E0, 0x9CE2AB57, 0x91A18D8E, 0x95609039, 0x8B27C03C, 0x8FE6DD8B, 0x82A5FB52, 0x8664E6E5,
   0xBE2B5B58, 0xBAEA46EF, 0xB7A96036, 0xB3687D81, 0xAD2F2D84, 0xA9EE3033, 0xA4AD16EA, 0xA06C0B5D,
   0xD4326D90, 0xD0F37027, 0xDDB056FE, 0xD9714B49, 0xC7361B4C, 0xC3F706FB, 0xCEB42022, 0xCA753D95,
   0xF23A8028, 0xF6FB9D9F, 0xFBB8BB46, 0xFF79A6F1, 0xE13EF6F4, 0xE5FFEB43, 0xE8BCCD9A, 0xEC7DD02D,
   0x34867077, 0x30476DC0, 0x3D044B19, 0x39C556AE, 0x278206AB, 0x23431B1C, 0x2E003DC5, 0x2AC12072,
   0x128E9DCF, 0x164F8078, 0x1B0CA6A1, 0x1FCDBB16, 0x018AEB13, 0x054BF6A4, 0x0808D07D, 0x0CC9CDCA,
   0x7897AB07, 0x7C56B6B0, 0x71159069, 0x75D48DDE, 0x6B93DDDB, 0x6F52C06C, 0x6211E6B5, 0x66D0FB02,
   0x5E9F46BF, 0x5A5E5B08, 0x571D7DD1, 0x53DC6066, 0x4D9B3063, 0x495A2DD4, 0x44190B0D, 0x40D816BA,
   0xACA5C697, 0xA864DB20, 0xA527FDF9, 0xA1E6E04E, 0xBFA1B04B, 0xBB60ADFC, 0xB6238B25, 0xB2E29692,
   0x8AAD2B2F, 0x8E6C3698, 0x832F1041, 0x87EE0DF6, 0x99A95DF3, 0x9D684044, 0x902B669D, 0x94EA7B2A,
   0xE0B41DE7, 0xE4750050, 0xE9362689, 0xEDF73B3E, 0xF3B06B3B, 0xF771768C, 0xFA325055, 0xFEF34DE2,
   0xC6BCF05F, 0xC27DEDE8, 0xCF3ECB31, 0xCBFFD686, 0xD5B88683, 0xD1799B34, 0xDC3ABDED, 0xD8FBA05A,
   0x690CE0EE, 0x6DCDFD59, 0x608EDB80, 0x644FC637, 0x7A089632, 0x7EC98B85, 0x738AAD5C, 0x774BB0EB,
   0x4F040D56, 0x4BC510E1, 0x46863638, 0x42472B8F, 0x5C007B8A, 0x58C1663D, 0x558240E4, 0x51435D53,
   0x251D3B9E, 0x21DC2629, 0x2C9F00F0, 0x285E1D47, 0x36194D42, 0x32D850F5, 0x3F9B762C, 0x3B5A6B9B,
   0x0315D626, 0x07D4CB91, 0x0A97ED48, 0x0E56F0FF, 0x1011A0FA, 0x14D0BD4D, 0x19939B94, 0x1D528623,
   0xF12F560E, 0xF5EE4BB9, 0xF8AD6D60, 0xFC6C70D7, 0xE22B20D2, 0xE6EA3D65, 0xEBA91BBC, 0xEF68060B,
   0xD727BBB6, 0xD3E6A601, 0xDEA580D8, 0xDA649D6F, 0xC423CD6A, 0xC0E2D0DD, 0xCDA1F604, 0xC960EBB3,
   0xBD3E8D7E, 0xB9FF90C9, 0xB4BCB610, 0xB07DABA7, 0xAE3AFBA2, 0xAAFBE615, 0xA7B8C0CC, 0xA379DD7B,
   0x9B3660C6, 0x9FF77D71, 0x92B45BA8, 0x9675461F, 0x8832161A, 0x8CF30BAD, 0x81B02D74, 0x857130C3,
   0x5D8A9099, 0x594B8D2E, 0x5408ABF7, 0x50C9B640, 0x4E8EE645, 0x4A4FFBF2, 0x470CDD2B, 0x43CDC09C,
   0x7B827D21, 0x7F436096, 0x7200464F, 0x76C15BF8, 0x68860BFD, 0x6C47164A, 0x61043093, 0x65C52D24,
   0x119B4BE9, 0x155A565E, 0x18197087, 0x1CD86D30, 0x029F3D35, 0x065E2082, 0x0B1D065B, 0x0FDC1BEC,
   0x3793A651, 0x3352BBE6, 0x3E119D3F, 0x3AD08088, 0x2497D08D, 0x2056CD3A, 0x2D15EBE3, 0x29D4F654,
   0xC5A92679, 0xC1683BCE, 0xCC2B1D17, 0xC8EA00A0, 0xD6AD50A5, 0xD26C4D12, 0xDF2F6BCB, 0xDBEE767C,
   0xE3A1CBC1, 0xE760D676, 0xEA23F0AF, 0xEEE2ED18, 0xF0A5BD1D, 0xF464A0AA, 0xF9278673, 0xFDE69BC4,
   0x89B8FD09, 0x8D79E0BE, 0x803AC667, 0x84FBDBD0, 0x9ABC8BD5, 0x9E7D9662, 0x933EB0BB, 0x97FFAD0C,
   0xAFB010B1, 0xAB710D06, 0xA6322BDF, 0xA2F33668, 0xBCB4666D, 0xB8757BDA, 0xB5365D03, 0xB1F740B4]

/-- `Crc32EthernetFast::reset`. -/
def reset : BitVec 32 := 0xFFFFFFFF#32

variable (crc : BitVec 32)

/-- One turn of the loop in `Crc32EthernetFast::accumulate`. -/
def accumulateByte (b : Byte) : BitVec 32 :=
  let temp : Byte := b ^^^ (crc >>> 24).setWidth 8
  table.getD temp.toNat 0#32 ^^^ (crc <<< 8)

/-- `Crc32EthernetFast::accumulate`. -/
def accumulate (bytes : List Byte) : BitVec 32 := bytes.foldl accumulateByte crc

/-- The four bytes `Crc32EthernetFast::finalize` stores. -/
def finalize : List Byte :=
  [(crc >>> 24).setWidth 8, (crc >>> 16).setWidth 8, (crc >>> 8).setWidth 8, crc.setWidth 8]

/-- What `Crc32EthernetFast::finalize` returns. -/
def finalizeValue : BitVec 32 := crc

/-- `Crc32EthernetFast::isOkay`. -/
def isOkay : Bool := crc == 0#32

@[simp] theorem accumulate_nil : accumulate crc [] = crc := rfl

theorem accumulate_append (a b : List Byte) :
    accumulate crc (a ++ b) = accumulate (accumulate crc a) b := by
  simp [accumulate]

/-! ## The polynomial behind the table. -/

/-- The polynomial of the code. -/
def polynomial : BitVec 32 := 0x04C11DB7#32

theorem polynomial_odd : polynomial.getLsbD 0 = true := by decide

theorem isTable : IsTable polynomial table := by
  have hall : ∀ i, i < 256 → table.getD i 0#32
      = remainder polynomial 0#32 (bitsOf (BitVec.ofNat 8 i)) := by
    decide +kernel
  intro b
  rw [hall b.toNat b.isLt, BitVec.ofNat_toNat, BitVec.setWidth_eq]

/-- **The register is the remainder, bit by bit.** -/
theorem accumulate_eq (bytes : List Byte) :
    accumulate crc bytes = remainder polynomial crc (bits bytes) :=
  foldl_tableStep isTable (by decide) bytes crc

/-- **An appended checksum verifies**: the register ends at zero. -/
theorem accumulate_finalize : accumulate crc (finalize crc) = 0#32 := by
  have hstep : ∀ r : BitVec 32, accumulateByte r (top r) = r <<< 8 :=
    fun _ => tableStep_top isTable (by decide)
  have hnext : ∀ k ≤ 24, top (crc <<< k) = (crc >>> (24 - k)).setWidth 8 :=
    fun _ hk => top_shiftLeft (by decide) hk
  have h1 : (crc >>> 16).setWidth 8 = top (crc <<< 8) := (hnext 8 (by decide)).symm
  have h2 : (crc >>> 8).setWidth 8 = top (crc <<< 16) := (hnext 16 (by decide)).symm
  have h3 : crc.setWidth 8 = top (crc <<< 24) := by rw [hnext 24 (by decide), BitVec.ushiftRight_zero]
  show accumulateByte (accumulateByte (accumulateByte (accumulateByte crc (top crc)) _) _) _ = _
  rw [hstep, h1, hstep, ← BitVec.shiftLeft_add, h2, hstep, ← BitVec.shiftLeft_add, h3, hstep,
    ← BitVec.shiftLeft_add]
  exact BitVec.shiftLeft_eq_zero (by decide)

/-- **No other four bytes do.** -/
theorem accumulate_eq_zero_iff {c : List Byte} (hc : c.length = 4) :
    accumulate crc c = 0#32 ↔ c = finalize crc := by
  have hown := accumulate_finalize crc
  rw [accumulate_eq] at hown ⊢
  exact remainder_bits_eq_iff polynomial_odd hc (by rw [hc]) hown

/-- A checksum whose first byte was inverted by `0xA5` never verifies. -/
theorem isOkay_corrupted :
    isOkay (accumulate crc [(crc >>> 24).setWidth 8 ^^^ 0xA5#8, (crc >>> 16).setWidth 8,
        (crc >>> 8).setWidth 8, crc.setWidth 8]) = false := by
  rw [isOkay, beq_eq_false_iff_ne, Ne, accumulate_eq_zero_iff crc rfl]
  intro h
  have hfirst := (List.cons.inj h).1.trans BitVec.xor_zero.symm
  exact absurd ((BitVec.xor_right_inj _).mp hfirst) (by decide)

/-- `isOkay` accepts a message followed by its own checksum. -/
theorem isOkay_appended (m : List Byte) :
    isOkay (accumulate reset (m ++ finalize (accumulate reset m))) = true := by
  rw [accumulate_append, accumulate_finalize]
  rfl

/-- **Zeros never verify**: they leave no register at zero that was not. -/
theorem isOkay_zeros (n : Nat) : isOkay (accumulate reset (List.replicate n 0#8)) = false := by
  have hzero : accumulate 0#32 (List.replicate n 0#8) = 0#32 := by
    induction n with
    | zero => rfl
    | succ n ih => exact ih
  rw [isOkay, beq_eq_false_iff_ne]
  intro h
  have hsame := h.trans hzero.symm
  rw [accumulate_eq, accumulate_eq] at hsame
  exact absurd (remainder_left_inj polynomial_odd hsame) (by decide)

end ColonyCore.Checksum.Crc32EthernetFast
