/-
**From the files to the runs of the daemon.**

* `mainInit` — what the daemon does with the rules that the parser has read.
* `main_safe` — whatever is in the files, the daemon exits in front of its main loop, or does not go
  wrong in it.
-/

import CyberPlatform.Pcd.Grammar
import CyberPlatform.Pcd.Runs

namespace CyberPlatform.Pcd

open Foundation

/-- `PCD_main_init` from the parser on, where the other modules are initialized: `none` where the
daemon exits. -/
def mainInit (parsed : Bool × Parser) : Option State :=
  let (good, p) := parsed
  if good then
    match activate (loaded p.rules) with
    | (.ok, s) => some { s with tickCounter := processTick }
    | _ => none
  else none

section Boot

variable {rules : List Rule}

/-- **What the parser guarantees**, by the states in which it leaves the rules. -/
theorem parsed_of_reading (reading : ∀ rule ∈ rules, Reading 7 rule) : Parsed rules where
  free rule member := (reading rule member).unused.2
  commands rule member := (reading rule member).command (by decide)
  states rule member := (reading rule member).ruleState
  uncached rule member entry inside := by
    have fits := (reading rule member).startCondition
    cases shape : rule.startCondition with
    | ruleCompleted ids =>
      rw [shape] at fits inside
      exact (fits.2 entry inside).1
    | _ =>
      rw [shape] at inside
      exact absurd inside List.not_mem_nil

/-- The daemon goes on with a file that has been read to its end, and only with such a file. -/
theorem mainInit_eq (parsed : Parsed rules) {good : Bool} {p : Parser}
    (same : p.rules = rules) :
    mainInit (good, p) = if good then some (started rules) else none := by
  subst same
  have ok : (activate (loaded p.rules)).1 = .ok := by rw [activate_eq parsed]
  rcases activated : activate (loaded p.rules) with ⟨status, s⟩
  rw [activated] at ok
  obtain rfl : status = .ok := ok
  rw [mainInit, started, activated]

/-- **Whatever is in the files, the daemon does not go wrong**: it exits in front of its main loop
if the parser fails; else it reads through no null pointer and no pointer to freed memory, and
nothing but the failure action of a rule that is in the files ends it. That no template is active,
and that no failure action names one, is up to the author of the files. -/
theorem main_safe {host : Host} {depth : Nat} {filename : Text} {good : Bool} {p : Parser}
    (parsed : parse host depth filename = some (good, p))
    (templates : ∀ rule ∈ p.rules, rule.indexed = true → rule.ruleState = .idle)
    (execs : ∀ rule ∈ p.rules, ∀ ruleId, rule.failureAction = .execRule ruleId →
      ∀ template ∈ p.rules, template.indexed = true → template.ruleId ≠ ruleId)
    {tick : Nat} {rounds : List Round} (clients : Clients p.rules rounds) :
    good = false ∧ mainInit (good, p) = none ∨
      good = true ∧ ∃ s, mainInit (good, p) = some s ∧
        Ensures (fun stop => stop = .reboot ∧ ∃ rule ∈ p.rules, rule.failureAction = .reboot)
          (rounds.foldlM (mainRound tick) s) Invariant := by
  have reading : ∀ rule ∈ p.rules, Reading 7 rule :=
    readConfig_reading host depth filename sound_initial parsed
  have rules := parsed_of_reading reading
  have config : Configuration p.rules := { rules with templates, execs }
  cases good with
  | false => exact .inl ⟨rfl, mainInit_eq rules rfl⟩
  | true =>
    refine .inr ⟨rfl, started p.rules, mainInit_eq rules rfl, ?_⟩
    refine ((reached_run config tick rounds clients).mono fun s reached => reached.inv).weaken ?_
    rintro stop ⟨reboots, r, stored, action⟩
    exact ⟨reboots, _, (stored_load p.rules).inside r stored, action⟩

theorem main_safe_ruleFile : ∃ p s, parse ruleHost 1 [] = some (true, p) ∧
    mainInit (true, p) = some s ∧
      Ensures (fun stop => stop = .reboot ∧ ∃ rule ∈ p.rules, rule.failureAction = .reboot)
        ((List.replicate 3 (stillRound [])).foldlM (mainRound 200) s) Invariant := by
  have plain : (parse ruleHost 1 []).map
        (fun out => (out.1, out.2.rules.all fun rule => !rule.indexed)) =
      some (true, true) := by
    decide +kernel
  obtain ⟨⟨good, p⟩, parsed, same⟩ := Option.map_eq_some_iff.mp plain
  obtain ⟨rfl, all⟩ := Prod.mk.inj same
  have untemplated : ∀ rule ∈ p.rules, rule.indexed ≠ true := fun rule member => by
    have unmarked := List.all_eq_true.mp all rule member
    simpa using unmarked
  obtain ⟨wrong, _⟩ | ⟨_, s, starts, safe⟩ := main_safe parsed
    (fun rule member marked => absurd marked (untemplated rule member))
    (fun _ _ _ _ template member marked => absurd marked (untemplated template member))
    (still_clients p.rules 3)
  · cases wrong
  · exact ⟨p, s, parsed, starts, safe⟩

end Boot

end CyberPlatform.Pcd
