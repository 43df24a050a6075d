/-
Which function a command of `int 0x80` runs.

Functions are registered one after the other, each for an id of its own
(`register_exact`): a registration that would replace another one, or lie
outside the table, is a panic. So the table is what was registered, and
`isr80h_handle_command` finds that and nothing else.
-/
import BenOS.Isr80h.Isr80h

namespace BenOS.Isr80h

open Lib Memory Kernel Keyboard Terminal

variable {t t' : Isr80hCommands} {id : Int} {c : Isr80hCommand}

-- ======================================================== one registration

/-- An id of the table. -/
def ValidId (id : Int) : Prop := 0 ≤ id ∧ id < benosMaxIsr80hCommands

instance (id : Int) : Decidable (ValidId id) :=
  inferInstanceAs (Decidable (_ ∧ _))

theorem validId_iff :
    ValidId id ↔ ¬ (id < 0 ∨ id ≥ benosMaxIsr80hCommands) := by
  unfold ValidId
  omega

theorem commandFunc_valid (h : ValidId id) :
    commandFunc t id
      = t ⟨id.toNat, toNat_commandId_lt (validId_iff.mp h)⟩ :=
  dif_neg (validId_iff.mp h)

theorem commandFunc_invalid (h : ¬ ValidId id) : commandFunc t id = none := by
  rw [validId_iff, not_not] at h
  exact dif_pos h

/-- A registration is refused where its id is none, or is taken; else its
function is found from then on, and all others are what they were. -/
theorem isr80hRegisterCommand_eq_some_iff :
    isr80hRegisterCommand id c t = some t'
      ↔ (ValidId id ∧ commandFunc t id = none)
        ∧ ∃ h : id.toNat < benosMaxIsr80hCommands,
            t' = Function.update t ⟨id.toNat, h⟩ (some c) := by
  unfold isr80hRegisterCommand
  by_cases hid : ValidId id
  · have hout := validId_iff.mp hid
    rw [dif_neg hout, commandFunc_valid hid]
    have hlt := toNat_commandId_lt hout
    simp only [hid, true_and, hlt, exists_true_left]
    cases htaken : t ⟨id.toNat, hlt⟩ with
    | some c' =>
        simp only [reduceCtorEq, false_and]
    | none =>
        simp only [Option.some.injEq, true_and]
        exact eq_comm
  · rw [dif_pos (not_not.mp (fun h => hid (validId_iff.mpr h)))]
    simp only [reduceCtorEq, hid, false_and]

theorem commandFunc_update (h : ValidId id)
    (hlt : id.toNat < benosMaxIsr80hCommands) (command : Int) :
    commandFunc (Function.update t ⟨id.toNat, hlt⟩ (some c)) command
      = if command = id then some c else commandFunc t command := by
  by_cases heq : command = id
  · rw [if_pos heq, heq, commandFunc_valid h]
    exact Function.update_self _ _ _
  · rw [if_neg heq]
    by_cases hvalid : ValidId command
    · rw [commandFunc_valid hvalid, commandFunc_valid hvalid]
      apply Function.update_of_ne
      intro hsame
      have hnat : command.toNat = id.toNat := congrArg Fin.val hsame
      have hlo := h.1
      have hlo' := hvalid.1
      omega
    · rw [commandFunc_invalid hvalid, commandFunc_invalid hvalid]

-- ============================================================== all of them

/-- What a run of registrations can be: none is refused exactly where the
ids are those of the table, differ, and are free; and then each function
is found under its id. -/
theorem registerAll_spec (cs : List (Int × Isr80hCommand)) :
    ∀ t : Isr80hCommands,
      ((registerAll cs t).isSome
        ↔ (∀ e ∈ cs, ValidId e.1 ∧ commandFunc t e.1 = none)
          ∧ (cs.map Prod.fst).Nodup)
      ∧ ∀ t', registerAll cs t = some t' → ∀ command c,
          commandFunc t' command = some c
            ↔ commandFunc t command = some c ∨ (command, c) ∈ cs := by
  induction cs with
  | nil =>
      intro t
      refine ⟨⟨fun _ => ⟨fun _ h => absurd h List.not_mem_nil,
        List.nodup_nil⟩, fun _ => rfl⟩, fun t' ht' command c => ?_⟩
      rw [← Option.some.inj ht']
      simp only [List.not_mem_nil, or_false]
  | cons e cs ih =>
      intro t
      have hcons : registerAll (e :: cs) t
          = (isr80hRegisterCommand e.1 e.2 t).bind (registerAll cs) :=
        List.foldlM_cons
      rw [hcons]
      cases hfirst : isr80hRegisterCommand e.1 e.2 t with
      | none =>
          refine ⟨⟨fun h => absurd h Bool.false_ne_true, fun ⟨hall, _⟩ => ?_⟩,
            fun t' h => absurd h.symm (Option.some_ne_none t')⟩
          -- an id that is valid and free is not refused
          exfalso
          obtain ⟨hvalid, hfree⟩ := hall e List.mem_cons_self
          have hsome := (@isr80hRegisterCommand_eq_some_iff t _ e.1 e.2).mpr
            ⟨⟨hvalid, hfree⟩, toNat_commandId_lt (validId_iff.mp hvalid), rfl⟩
          rw [hfirst] at hsome
          cases hsome
      | some t₁ =>
          obtain ⟨⟨hvalid, hfree⟩, hlt, rfl⟩ :=
            isr80hRegisterCommand_eq_some_iff.mp hfirst
          obtain ⟨hsome, hfinds⟩ :=
            ih (Function.update t ⟨e.1.toNat, hlt⟩ (some e.2))
          simp only [Option.bind_some]
          constructor
          · rw [hsome, List.map_cons, List.nodup_cons]
            simp only [commandFunc_update hvalid]
            constructor
            · rintro ⟨hall, hnodup⟩
              have hne : ∀ e' ∈ cs, e'.1 ≠ e.1 := by
                intro e' he' heq
                have hnone := (hall e' he').2
                rw [if_pos heq] at hnone
                cases hnone
              refine ⟨fun e' he' => ?_, fun hmem => ?_, hnodup⟩
              · rcases List.mem_cons.mp he' with rfl | he'
                · exact ⟨hvalid, hfree⟩
                · obtain ⟨hvalid', hnone⟩ := hall e' he'
                  rw [if_neg (hne e' he')] at hnone
                  exact ⟨hvalid', hnone⟩
              · obtain ⟨e', he', heq⟩ := List.mem_map.mp hmem
                exact hne e' he' heq
            · rintro ⟨hall, hnot, hnodup⟩
              refine ⟨fun e' he' => ?_, hnodup⟩
              obtain ⟨hvalid', hnone⟩ := hall e' (List.mem_cons_of_mem e he')
              have hne : e'.1 ≠ e.1 := fun heq =>
                hnot (List.mem_map.mpr ⟨e', he', heq⟩)
              rw [if_neg hne]
              exact ⟨hvalid', hnone⟩
          · intro t' ht' command c
            rw [hfinds t' ht' command c, commandFunc_update hvalid,
              List.mem_cons]
            by_cases heq : command = e.1
            · rw [if_pos heq, heq, hfree]
              simp only [Option.some.injEq, reduceCtorEq, false_or]
              refine or_congr ⟨fun h => ?_, fun h => ?_⟩ Iff.rfl
              · rw [← h]
              · exact (congrArg Prod.snd h).symm
            · rw [if_neg heq]
              have hne : (command, c) ≠ e := fun h =>
                heq (congrArg Prod.fst h)
              simp only [hne, false_or]

theorem commandFunc_empty (command : Int) :
    commandFunc (fun _ => none) command = none := by
  by_cases h : ValidId command
  · rw [commandFunc_valid h]
  · rw [commandFunc_invalid h]

/-- Behind registrations into an empty table a command is the one that was
registered. -/
theorem commandFunc_registered {cs : List (Int × Isr80hCommand)}
    (h : registerAll cs (fun _ => none) = some t) (command : Int)
    (c : Isr80hCommand) :
    commandFunc t command = some c ↔ (command, c) ∈ cs := by
  obtain ⟨-, hfinds⟩ := registerAll_spec cs fun _ => none
  rw [hfinds t h command c, commandFunc_empty]
  simp only [reduceCtorEq, false_or]

/-- A run of registrations into an empty table is not refused exactly
where the ids are those of the table and differ. -/
theorem registerAll_isSome (cs : List (Int × Isr80hCommand)) :
    (registerAll cs fun _ => none).isSome
      ↔ (∀ e ∈ cs, ValidId e.1) ∧ (cs.map Prod.fst).Nodup := by
  obtain ⟨hsome, -⟩ := registerAll_spec cs fun _ => none
  simp only [commandFunc_empty, and_true] at hsome
  exact hsome

/-- Every run of registrations into an empty table: it panics exactly
where an id lies outside the table or comes twice, and what it leaves
runs for each command the function that was registered for it, and for
every other number nothing. -/
theorem register_exact (cs : List (Int × Isr80hCommand)) :
    ((registerAll cs fun _ => none).isSome
        ↔ (∀ e ∈ cs, ValidId e.1) ∧ (cs.map Prod.fst).Nodup)
      ∧ ∀ t, registerAll cs (fun _ => none) = some t →
          ∀ (env : Locals) (s : SysState) (command : Int),
            (∀ c, (command, c) ∈ cs →
              isr80hHandleCommand env s t command = runCommand env s c)
            ∧ ((∀ c, (command, c) ∉ cs) →
              isr80hHandleCommand env s t command
                = some (.answered 0#32 s)) := by
  refine ⟨registerAll_isSome cs, fun t ht env s command =>
    ⟨fun c hc => ?_, fun hnone => ?_⟩⟩
  · have hfound := (commandFunc_registered ht command c).mpr hc
    unfold isr80hHandleCommand
    rw [hfound]
  · have hfound : commandFunc t command = none := by
      cases hfunc : commandFunc t command with
      | none => rfl
      | some c =>
          exact absurd ((commandFunc_registered ht command c).mp hfunc)
            (hnone c)
    unfold isr80hHandleCommand
    rw [hfound]

/-- The table `isr80h_register_commands` makes. -/
theorem isr80hRegisterCommands_isSome :
    (isr80hRegisterCommands fun _ => none).isSome = true := by
  apply (registerAll_isSome systemCommands).mpr
  decide

/-- The commands of the kernel. -/
def kernelCommands : Isr80hCommands :=
  (isr80hRegisterCommands fun _ => none).get isr80hRegisterCommands_isSome

/-- Each command runs its function. -/
theorem kernelCommands_run {command : Int}
    (h : (command, c) ∈ systemCommands) (env : Locals) (s : SysState) :
    isr80hHandleCommand env s kernelCommands command = runCommand env s c := by
  have htable : registerAll systemCommands (fun _ => none)
      = some kernelCommands := (Option.some_get _).symm
  have hfound := (commandFunc_registered htable command c).mpr h
  unfold isr80hHandleCommand
  rw [hfound]

end BenOS.Isr80h
