import PartnerEdge.Text.Terminated

/-!
# Assignment lines

A line `KEY=value`, as the shell writes and searches it: the key has no equals sign, and everything
after the first one is the value. A file of such lines is searched for a key line by line, and an
assignment that is appended to it is found only if the file ended with a newline.
-/

namespace PartnerEdge.Text

def assignment (key value : Str) : Str := key ++ '=' :: value

/-- What follows `KEY=` on a line that starts with it. -/
def valueOf? (key line : Str) : Option Str := line.dropPrefix? (key ++ ['='])

variable {key key' value value' line : Str}

theorem valueOf?_eq_some_iff : valueOf? key line = some value ↔ line = assignment key value := by
  rw [valueOf?, List.dropPrefix?_eq_some_iff]
  constructor
  · rintro ⟨start, rfl, hstart⟩
    rw [eq_of_beq hstart, assignment, List.append_assoc]
    rfl
  · rintro rfl
    exact ⟨_, by simp [assignment], beq_self_eq_true _⟩

@[simp] theorem valueOf?_assignment_self : valueOf? key (assignment key value) = some value :=
  valueOf?_eq_some_iff.2 rfl

theorem assignment_inj (hkey : '=' ∉ key) (hkey' : '=' ∉ key') :
    assignment key value = assignment key' value' ↔ key = key' ∧ value = value' := by
  constructor
  · intro h
    have hsplit := congrArg (splitOnce '=') h
    simpa [assignment, splitOnce_append hkey, splitOnce_append hkey'] using hsplit
  · rintro ⟨rfl, rfl⟩
    rfl

theorem valueOf?_assignment_ne (hkey : '=' ∉ key) (hkey' : '=' ∉ key') (hne : key ≠ key') :
    valueOf? key (assignment key' value) = none := by
  rw [Option.eq_none_iff_forall_ne_some]
  intro value' hvalue
  rw [valueOf?_eq_some_iff, assignment_inj hkey' hkey] at hvalue
  exact hne hvalue.1.symm

@[simp] theorem valueOf?_nil : valueOf? key [] = none := by
  rw [Option.eq_none_iff_forall_ne_some]
  intro value hvalue
  simp [valueOf?_eq_some_iff, assignment] at hvalue

/-- What is appended to a line that goes on does not assign the key. -/
theorem valueOf?_append_assignment (hkey : '=' ∉ key) (hne : line ≠ [])
    (hline : valueOf? key line = none) : valueOf? key (line ++ assignment key value) = none := by
  rw [Option.eq_none_iff_forall_ne_some]
  intro value' hvalue
  rw [valueOf?_eq_some_iff] at hvalue
  by_cases heq : '=' ∈ line
  · -- The first equals sign is in the line, and what stands before it is not the key.
    obtain ⟨⟨start, rest⟩, hsplit⟩ :=
      Option.ne_none_iff_exists'.1 (mt splitOnce_eq_none_iff.1 (not_not.2 heq))
    obtain ⟨hstart, rfl⟩ := splitOnce_eq_some_iff.1 hsplit
    have hassign : assignment start (rest ++ assignment key value) = assignment key value' := by
      rw [← hvalue]
      simp [assignment]
    obtain ⟨rfl, -⟩ := (assignment_inj hstart hkey).1 hassign
    exact absurd (valueOf?_eq_some_iff.2 rfl) (Option.eq_none_iff_forall_ne_some.1 hline rest)
  · have hkey' : '=' ∉ line ++ key := by simp [heq, hkey]
    have hassign : assignment (line ++ key) value = assignment key value' := by
      rw [← hvalue]
      simp [assignment]
    have hself := ((assignment_inj hkey' hkey).1 hassign).1
    exact hne (List.append_left_eq_self.1 hself)

theorem newline_notMem_assignment (hkey : '\n' ∉ key) (hvalue : '\n' ∉ value) :
    '\n' ∉ assignment key value := by
  simp [assignment, hkey, hvalue]

/-! ## Files -/

/-- The values of a key, from the first line on. -/
def valuesOf (key t : Str) : List Str := (lines t).filterMap (valueOf? key)

/-- `grep -q '^KEY='` -/
def assigns (key t : Str) : Bool := (lines t).any fun l => (valueOf? key l).isSome

variable {t : Str} {ls : List Str} {l : Str}

theorem assigns_iff : assigns key t = true ↔ valuesOf key t ≠ [] := by
  simp [assigns, valuesOf, List.filterMap_eq_nil_iff, Option.isSome_iff_ne_none]

theorem mem_valuesOf_iff : value ∈ valuesOf key t ↔ assignment key value ∈ lines t := by
  simp [valuesOf, List.mem_filterMap, valueOf?_eq_some_iff]

theorem valuesOf_terminate_append (hls : ∀ x ∈ ls, '\n' ∉ x) (hl : '\n' ∉ l) :
    valuesOf key (terminate ls ++ l) =
      ls.filterMap (valueOf? key) ++ (valueOf? key l).toList := by
  rw [valuesOf, lines_append_of_newline_notMem hls hl, List.filterMap_append]
  cases h : valueOf? key l <;> simp [h]

theorem valuesOf_terminate (hls : ∀ x ∈ ls, '\n' ∉ x) :
    valuesOf key (terminate ls) = ls.filterMap (valueOf? key) := by
  have hnil : valuesOf key (terminate ls ++ []) = _ :=
    valuesOf_terminate_append hls List.not_mem_nil
  simpa using hnil

end PartnerEdge.Text
