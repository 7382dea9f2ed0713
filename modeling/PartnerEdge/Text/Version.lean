import PartnerEdge.Text.Scan

/-!
# Dotted versions

Versions of the form `MAJOR.MINOR.PATCH` and their order under `sort -V`: the numbers decide, and
between two spellings of the same numbers the texts do.
-/

namespace PartnerEdge.Text

def isNumber (s : Str) : Bool := !s.isEmpty && s.all Char.isDigit

/-- `^[0-9]+\.[0-9]+\.[0-9]+$` -/
def isSemver (v : Str) : Bool :=
  match v.splitOn '.' with
  | [major, minor, patch] => isNumber major && isNumber minor && isNumber patch
  | _ => false

def components (v : Str) : List Nat := (v.splitOn '.').map (Nat.ofDigitChars 10 · 0)

/-- The order of `sort -V` on versions. -/
def VersionLe (a b : Str) : Prop :=
  components a < components b ∨ components a = components b ∧ a ≤ b

instance : DecidableRel VersionLe := fun _ _ => inferInstanceAs (Decidable (_ ∨ _))

/-- `[[ "$1" != "$2" && "$(printf '%s\n%s\n' "$1" "$2" | sort -V | tail -n1)" == "$1" ]]` -/
def verGt (a b : Str) : Bool :=
  a != b && ([a, b].insertionSort VersionLe).getLast? == some a

example : verGt "1.10.0".toList "1.9.3".toList = true := by decide

/-! ## The order -/

instance : Std.Total VersionLe where
  total a b := by
    rcases lt_trichotomy (components a) (components b) with h | h | h
    · exact .inl (.inl h)
    · rcases le_total a b with hab | hba
      · exact .inl (.inr ⟨h, hab⟩)
      · exact .inr (.inr ⟨h.symm, hba⟩)
    · exact .inr (.inl h)

instance : IsTrans Str VersionLe where
  trans a b c := by
    rintro (hab | ⟨hab, hab'⟩) (hbc | ⟨hbc, hbc'⟩)
    · exact .inl (hab.trans hbc)
    · exact .inl (hbc ▸ hab)
    · exact .inl (hab ▸ hbc)
    · exact .inr ⟨hab.trans hbc, hab'.trans hbc'⟩

instance : Std.Antisymm VersionLe where
  antisymm a b := by
    rintro (hab | ⟨hab, hab'⟩) (hba | ⟨hba, hba'⟩)
    · exact absurd hba hab.asymm
    · exact absurd hba hab.ne'
    · exact absurd hab hba.ne'
    · exact hab'.antisymm hba'

theorem verGt_iff {a b : Str} : verGt a b = true ↔ VersionLe b a ∧ a ≠ b := by
  have hlast : ([a, b].insertionSort VersionLe).getLast? = some a ↔ a = b ∨ ¬ VersionLe a b := by
    by_cases hab : VersionLe a b
    · simp [hab, eq_comm]
    · simp [hab]
  rw [verGt, Bool.and_eq_true, bne_iff_ne, beq_iff_eq, hlast, and_comm]
  refine and_congr_left fun hne => ⟨fun h => ?_, fun h => .inr fun hab => hne (antisymm hab h)⟩
  rcases h with heq | hab
  · exact absurd heq hne
  · exact (total_of VersionLe a b).resolve_left hab

theorem verGt_irrefl (a : Str) : verGt a a = false := by simp [verGt]

theorem verGt_trans {a b c : Str} (hab : verGt a b = true) (hbc : verGt b c = true) :
    verGt a c = true := by
  obtain ⟨hba, hne⟩ := verGt_iff.1 hab
  obtain ⟨hcb, -⟩ := verGt_iff.1 hbc
  refine verGt_iff.2 ⟨trans_of VersionLe hcb hba, ?_⟩
  rintro rfl
  exact hne (antisymm hcb hba)

/-! ## What a version is made of -/

theorem exists_of_isSemver {v : Str} (h : isSemver v = true) : ∃ major minor patch,
    v = major ++ '.' :: (minor ++ '.' :: patch) ∧ isNumber major = true ∧ isNumber minor = true ∧
      isNumber patch = true := by
  unfold isSemver at h
  split at h
  · next major minor patch hsplit =>
    simp only [Bool.and_eq_true, and_assoc] at h
    have hjoin : ['.'].intercalate (v.splitOn '.') = v := List.intercalate_splitOn '.'
    refine ⟨major, minor, patch, ?_, h⟩
    rw [← hjoin, hsplit]
    simp
  · cases h

theorem isSemver_chars {v : Str} (h : isSemver v = true) :
    v ≠ [] ∧ ∀ c ∈ v, c.isDigit = true ∨ c = '.' := by
  obtain ⟨major, minor, patch, rfl, hmajor, hminor, hpatch⟩ := exists_of_isSemver h
  simp only [isNumber, Bool.and_eq_true, List.all_eq_true] at hmajor hminor hpatch
  refine ⟨by simp, fun c hc => ?_⟩
  simp only [List.mem_append, List.mem_cons] at hc
  rcases hc with hc | rfl | hc | rfl | hc
  · exact .inl (hmajor.2 c hc)
  · exact .inr rfl
  · exact .inl (hminor.2 c hc)
  · exact .inr rfl
  · exact .inl (hpatch.2 c hc)

end PartnerEdge.Text
