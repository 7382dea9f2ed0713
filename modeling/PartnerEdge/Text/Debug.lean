import PartnerEdge.Text.Scan

/-!
# Debug output

Rust's `{:?}` for characters, strings and lists. Which characters are shown as themselves is decided
by the Unicode tables of the standard library; here that is a parameter that is only known on ASCII.
-/

namespace PartnerEdge.Text

/-- The characters that `escape_debug` shows as themselves. -/
structure Printer where
  isPrintable : Char → Bool
  ascii : ∀ c, ' ' ≤ c → c ≤ '~' → isPrintable c = true

namespace Printer

/-- Everything is shown as itself that `escape` does not single out. -/
def plain : Printer := ⟨fun _ => true, fun _ _ _ => rfl⟩

variable (printer : Printer)

def escape (quote c : Char) : Str :=
  if c = '\x00' then ['\\', '0']
  else if c = '\t' then ['\\', 't']
  else if c = '\r' then ['\\', 'r']
  else if c = '\n' then ['\\', 'n']
  else if c = quote ∨ c = '\\' then ['\\', c]
  else if printer.isPrintable c then [c]
  else ['\\', 'u', '\x7b'] ++ Nat.toDigits 16 c.toNat ++ ['\x7d']

def debugChar (c : Char) : Str := '\x27' :: printer.escape '\x27' c ++ ['\x27']

def debugStr (s : Str) : Str := '"' :: s.flatMap (printer.escape '"') ++ ['"']

/-- A list of texts that are already shown. -/
def debugList (items : List Str) : Str := '[' :: List.intercalate [',', ' '] items ++ [']']

/-- Printable ASCII without quotes and backslashes is shown as it is. -/
theorem debugStr_eq {s : Str}
    (h : ∀ c ∈ s, (' ' ≤ c ∧ c ≤ '~') ∧ c ≠ '"' ∧ c ≠ '\\') :
    printer.debugStr s = '"' :: s ++ ['"'] := by
  have hescape : ∀ c ∈ s, printer.escape '"' c = [c] := by
    intro c hc
    obtain ⟨⟨hlo, hhi⟩, hquote, hback⟩ := h c hc
    have hcontrol : c ≠ '\x00' ∧ c ≠ '\t' ∧ c ≠ '\r' ∧ c ≠ '\n' := by
      refine ⟨?_, ?_, ?_, ?_⟩ <;> rintro rfl <;> exact absurd hlo (by decide)
    simp [escape, hcontrol, hquote, hback, printer.ascii c hlo hhi]
  have hflat : s.flatMap (printer.escape '"') = s := by
    rw [List.flatMap_congr hescape]
    simp
  rw [debugStr, hflat]

end Printer

end PartnerEdge.Text
