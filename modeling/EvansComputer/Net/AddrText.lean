import EvansComputer.Library.Text
import EvansComputer.Net.Types

/-!
# Addresses as text

How addresses are written, and what is read as one.  Reading is more liberal than
writing (`010.0.0.1` is an address, and so is a hardware address with dashes), so
only what was written is known to come back.
-/

namespace EvansComputer

open Text

/-! ## Bytes -/

/-- `{:02x}` -/
def hexByte (b : Byte) : List Char := [Nat.digitChar (b.toNat / 16), Nat.digitChar (b.toNat % 16)]

/-- The value of a hexadecimal digit. -/
def hexDigit (c : Char) : Option ℕ :=
  if c.isDigit then some (c.toNat - 48)
  else if 97 ≤ c.toNat ∧ c.toNat ≤ 102 then some (c.toNat - 87)
  else if 65 ≤ c.toNat ∧ c.toNat ≤ 70 then some (c.toNat - 55)
  else none

/-- `u8::from_str_radix(p, 16)` of a text of two characters: a sign `+` may stand for
the first digit. -/
def readHexByte : List Char → Option Byte
  | [x, y] =>
    if x = '+' then (hexDigit y).map UInt8.ofNat
    else
      match hexDigit x, hexDigit y with
      | some m, some n => some (UInt8.ofNat (16 * m + n))
      | _, _ => none
  | _ => none

theorem hexDigit_digitChar {n : ℕ} (h : n < 16) : hexDigit (Nat.digitChar n) = some n := by
  revert n
  decide

theorem digitChar_ne_plus {n : ℕ} (h : n < 16) : Nat.digitChar n ≠ '+' := by
  revert n
  decide

theorem isSpace_digitChar {n : ℕ} (h : n < 16) : isSpace (Nat.digitChar n) = false := by
  revert n
  decide

theorem readHexByte_hexByte (b : Byte) : readHexByte (hexByte b) = some b := by
  have hb : b.toNat < 256 := b.toNat_lt
  rw [hexByte, readHexByte, if_neg (digitChar_ne_plus (by omega)), hexDigit_digitChar (by omega),
    hexDigit_digitChar (by omega)]
  dsimp only
  rw [Nat.div_add_mod, UInt8.ofNat_toNat]

/-- The parse of a decimal byte of an address: one to three digits. -/
def readOctet (s : List Char) : Option Byte :=
  if s.length ≤ 3 then ((readDigits s).filter (· ≤ 255)).map UInt8.ofNat else none

theorem length_decimal_byte {n : ℕ} (h : n < 256) : (decimal n).length ≤ 3 :=
  (Nat.length_toDigits_le_iff (by decide) (by decide)).mpr (by omega)

theorem readOctet_decimal (b : Byte) : readOctet (decimal b.toNat) = some b := by
  have hb : b.toNat < 256 := b.toNat_lt
  rw [readOctet, if_pos (length_decimal_byte hb), readDigits_decimal]
  simp [Nat.le_of_lt_succ hb]

/-! ## Hardware addresses -/

namespace MacAddr

/-- Six bytes in hexadecimal with colons between them. -/
def display (m : MacAddr) : List Char :=
  hexByte m.a ++ ':' :: (hexByte m.b ++ ':' :: (hexByte m.c ++ ':' :: (hexByte m.d ++ ':' ::
    (hexByte m.e ++ ':' :: hexByte m.f))))

/-- `parse_mac` -/
def parse (s : List Char) : Option MacAddr :=
  match (split (fun c => c == ':' || c == '-') s).map readHexByte with
  | [some a, some b, some c, some d, some e, some f] => some ⟨a, b, c, d, e, f⟩
  | _ => none

theorem hexByte_field (b : Byte) : ∀ c ∈ hexByte b, (c == ':' || c == '-') = false := by
  have hb : b.toNat < 256 := b.toNat_lt
  have hdigit : ∀ n < 16, (Nat.digitChar n == ':' || Nat.digitChar n == '-') = false := by decide
  intro c hc
  simp only [hexByte, List.mem_cons, List.not_mem_nil, or_false] at hc
  rcases hc with rfl | rfl
  · exact hdigit _ (by omega)
  · exact hdigit _ (by omega)

theorem parse_display (m : MacAddr) : parse m.display = some m := by
  have hsep : (fun c : Char => c == ':' || c == '-') ':' = true := rfl
  rw [parse, display]
  simp only [split_field_sep (hexByte_field _) hsep, split_field (hexByte_field _), List.map_cons,
    List.map_nil, readHexByte_hexByte]

theorem isWord_display (m : MacAddr) : IsWord m.display := by
  have hbyte : ∀ b : Byte, ∀ c ∈ hexByte b, isSpace c = false := by
    intro b c hc
    have hb : b.toNat < 256 := b.toNat_lt
    simp only [hexByte, List.mem_cons, List.not_mem_nil, or_false] at hc
    rcases hc with rfl | rfl
    · exact isSpace_digitChar (by omega)
    · exact isSpace_digitChar (by omega)
  refine ⟨List.cons_ne_nil _ _, fun c hc => ?_⟩
  simp only [display, List.mem_append, List.mem_cons] at hc
  rcases hc with hc | rfl | hc | rfl | hc | rfl | hc | rfl | hc | rfl | hc
  all_goals first | exact hbyte _ _ hc | decide

end MacAddr

/-! ## Network addresses -/

namespace Ipv4Addr

/-- Four bytes in decimal with dots between them. -/
def display (ip : Ipv4Addr) : List Char :=
  decimal ip.a.toNat ++ '.' :: (decimal ip.b.toNat ++ '.' :: (decimal ip.c.toNat ++ '.' ::
    decimal ip.d.toNat))

def parse (s : List Char) : Option Ipv4Addr :=
  match (split (· == '.') s).map readOctet with
  | [some a, some b, some c, some d] => some ⟨a, b, c, d⟩
  | _ => none

theorem decimal_field (n : ℕ) : ∀ c ∈ decimal n, (c == '.') = false := by
  intro c hc
  have hdigit := Nat.isDigit_of_mem_toDigits (by decide) (by decide) hc
  refine beq_eq_false_iff_ne.mpr ?_
  rintro rfl
  exact absurd hdigit (by decide)

theorem parse_display (ip : Ipv4Addr) : parse ip.display = some ip := by
  have hsep : (fun c : Char => c == '.') '.' = true := rfl
  rw [parse, display]
  simp only [split_field_sep (decimal_field _) hsep, split_field (decimal_field _), List.map_cons,
    List.map_nil, readOctet_decimal]

theorem isWord_display (ip : Ipv4Addr) : IsWord ip.display := by
  refine ⟨fun h => Nat.toDigits_ne_nil (List.append_eq_nil_iff.mp h).1, fun c hc => ?_⟩
  simp only [display, List.mem_append, List.mem_cons] at hc
  rcases hc with hc | rfl | hc | rfl | hc | rfl | hc
  all_goals first | exact (isWord_decimal _).2 _ hc | decide

end EvansComputer.Ipv4Addr
