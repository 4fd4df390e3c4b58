import Rollout.Invocation
/-!
Arguments that differ in the command only.  Options that stand before one command say the same before any other
(`parse_command`), so what is read of them can be asked of a check.

An argument either passes, whatever stands after it, or it is a command (`command_or_passes`).  An argument that passes
decides that there is nothing to run, or it belongs to the options; in both cases the rest is read in the same way
whatever the command will be (`Passes`).  So if arguments that end in a check can be read, those before it all belong to
the options, and any command may stand in its place (`read_command`).  A check is followed by nothing, or by two dashes.
-/
namespace Rollout

namespace Invocation

variable {o : Options} {awaiting : Option Flag} {options rest : List String} {word : String} {i : Invocation}

theorem services_false_append (hword : Argument.ofText word = .plain word) (options named : List String) :
    services false (options ++ [word]) ≠ .ok named := by
  intro h
  cases options with
  | nil =>
    rw [List.nil_append, services, hword] at h
    cases h
  | cons text options =>
    rw [List.cons_append, services] at h
    split at h
    · cases h
    · simp at h
    · cases h

theorem readCommand_append (hword : Argument.ofText word = .plain word) (name : String) (options : List String) :
    readCommand name (options ++ [word]) ≠ .ok .check := by
  intro h
  have hfree : ∀ command : Command,
      (services false (options ++ [word]) >>= fun _ => pure command : Except Stop Command) ≠ .ok .check := by
    intro command hok
    cases hs : services false (options ++ [word]) with
    | ok named => exact services_false_append hword options named hs
    | error stop =>
      rw [hs] at hok
      cases hok
  unfold readCommand at h
  split at h
  · exact hfree _ h
  · exact hfree _ h
  · exact hfree _ h
  · cases hs : services true (options ++ [word]) with
    | error stop =>
      rw [hs] at h
      cases h
    | ok named =>
      rw [hs] at h
      cases named with
      | nil => cases h
      | cons name named => cases h
  · cases h
  · cases h

/-! ## What one argument means -/

def readValue (o : Options) (flag : Flag) (value : String) (rest : List String) : Except Stop Invocation :=
  match o.set flag value with
  | .ok o => read o none rest
  | .error stop => .error stop

def readOption (o : Options) (argument : Argument) (rest : List String) : Except Stop Invocation :=
  if argument.asksForHelp then .error .help
  else match flag? argument with
    | none => .error .misuse
    | some (flag, none) => read o (some flag) rest
    | some (flag, some value) => readValue o flag value rest

section Read

variable {text name value : String}

theorem read_plain (h : Argument.ofText text = .plain name) (o : Options) (rest : List String) :
    read o none (text :: rest) =
      (readCommand name rest).map fun command => ⟨o.config, o.profiles, o.parallel, command⟩ := by
  simp only [read, h]

theorem read_value (h : Argument.ofText text = .plain value) (o : Options) (flag : Flag) (rest : List String) :
    read o (some flag) (text :: rest) = readValue o flag value rest := by
  simp only [read, h]
  rfl

theorem read_option (h : ∀ name, Argument.ofText text ≠ .plain name) (o : Options) (rest : List String) :
    read o none (text :: rest) = readOption o (Argument.ofText text) rest := by
  cases hargument : Argument.ofText text with
  | plain name => exact absurd hargument (h name)
  | _ =>
    simp only [read, hargument]
    rfl

theorem read_misplaced (h : ∀ name, Argument.ofText text ≠ .plain name) (o : Options) (flag : Flag)
    (rest : List String) : read o (some flag) (text :: rest) = .error .misuse := by
  cases hargument : Argument.ofText text with
  | plain name => exact absurd hargument (h name)
  | _ => simp only [read, hargument]

/-- An argument decides that there is nothing to run, or it belongs to the options, whatever stands after it. -/
def Passes (o : Options) (awaiting : Option Flag) (text : String) : Prop :=
  (∃ stop, ∀ rest, read o awaiting (text :: rest) = .error stop) ∨
    ∃ o' awaiting', ∀ rest, read o awaiting (text :: rest) = read o' awaiting' rest

theorem passes_of_value {flag : Flag} (h : ∀ rest, read o awaiting (text :: rest) = readValue o flag value rest) :
    Passes o awaiting text := by
  unfold readValue at h
  cases hset : o.set flag value with
  | ok o' => exact Or.inr ⟨o', none, fun rest => by rw [h, hset]⟩
  | error stop => exact Or.inl ⟨stop, fun rest => by rw [h, hset]⟩

theorem passes_of_option {argument : Argument}
    (h : ∀ rest, read o awaiting (text :: rest) = readOption o argument rest) : Passes o awaiting text := by
  unfold readOption at h
  cases hhelp : argument.asksForHelp with
  | true => exact Or.inl ⟨.help, fun rest => by rw [h, hhelp, if_pos rfl]⟩
  | false =>
    simp only [hhelp, Bool.false_eq_true, if_false] at h
    rcases hflag : flag? argument with _ | ⟨flag, _ | value⟩
    · exact Or.inl ⟨.misuse, fun rest => by rw [h, hflag]⟩
    · exact Or.inr ⟨o, some flag, fun rest => by rw [h, hflag]⟩
    · exact passes_of_value fun rest => by rw [h, hflag]

theorem command_or_passes (o : Options) (awaiting : Option Flag) (text : String) :
    (∃ name, awaiting = none ∧ Argument.ofText text = .plain name) ∨ Passes o awaiting text := by
  by_cases hplain : ∃ name, Argument.ofText text = .plain name
  · obtain ⟨name, hname⟩ := hplain
    cases awaiting with
    | none => exact Or.inl ⟨name, rfl, hname⟩
    | some flag => exact Or.inr (passes_of_value fun rest => read_value hname o flag rest)
  · rw [not_exists] at hplain
    refine Or.inr ?_
    cases awaiting with
    | none => exact passes_of_option fun rest => read_option hplain o rest
    | some flag => exact Or.inl ⟨.misuse, fun rest => read_misplaced hplain o flag rest⟩

end Read

/-! ## Options before a command -/

/-- **Options before a check mean the same before any command.** -/
theorem read_command (hword : Argument.ofText word = .plain word) (hcheck : i.command = .check) :
    ∀ (options : List String) (o : Options) (awaiting : Option Flag), read o awaiting (options ++ ["check"]) = .ok i →
      read o awaiting (options ++ word :: rest) =
        (readCommand word rest).map fun command => { i with command := command }
  | [], o, awaiting, h => by
    rw [List.nil_append] at h ⊢
    rcases command_or_passes o awaiting "check" with ⟨name, rfl, -⟩ | ⟨stop, hstop⟩ | ⟨o', awaiting', hgoOn⟩
    · obtain rfl : (⟨o.config, o.profiles, o.parallel, .check⟩ : Invocation) = i := Except.ok.inj h
      rw [read_plain hword]
    · rw [hstop] at h
      cases h
    · rw [hgoOn, read] at h
      cases h
  | text :: options, o, awaiting, h => by
    rw [List.cons_append] at h ⊢
    rcases command_or_passes o awaiting text with ⟨name, rfl, htext⟩ | ⟨stop, hstop⟩ | ⟨o', awaiting', hgoOn⟩
    · rw [read_plain htext] at h
      cases hcommand : readCommand name (options ++ ["check"]) with
      | error stop =>
        rw [hcommand] at h
        cases h
      | ok command =>
        rw [hcommand] at h
        obtain rfl := Except.ok.inj h
        obtain rfl : command = .check := hcheck
        exact absurd hcommand (readCommand_append (by decide +kernel) name options)
    · rw [hstop] at h
      cases h
    · rw [hgoOn] at h ⊢
      exact read_command hword hcheck options o' awaiting' h

theorem parse_command (hoptions : parse (options ++ ["check"]) = .ok i) (hcheck : i.command = .check)
    (hword : Argument.ofText word = .plain word) :
    parse (options ++ word :: rest) = (readCommand word rest).map fun command => { i with command := command } :=
  read_command hword hcheck options .none none hoptions

end Invocation

end Rollout
