import Mathlib.Data.List.Permutation
import LaunchGraph.Proofs.Commands

/-!
# Runs

A run carries out commands one after the other, from a new context on a new device.  A run is
*contained* if only the context uses the streams and the events of the device: its commands to
the device let it advance, allocate and free buffers, have launches rejected or fail, or limit
the streams.  The elements it registers are new, or part of the graph already.

Every contained run is a sequence of moves and disturbances (`Stage.Coherent.after_steps`), so
the state after it is coherent.  None of its commands finds the device stuck
(`Stage.Coherent.perform_steps`).
-/

namespace LaunchGraph

namespace Context

/-- The context after some commands, each carried out where the one before has left off. -/
def after (c : Context) (commands : List Command) : Context :=
  commands.foldl (fun c command => ((perform command).run c).2) c

/-- The context after a run on a new device. -/
def ran (options : ContextOptions) (commands : List Command) : Context :=
  (new options {}).after commands

theorem after_append (c : Context) (l l' : List Command) : c.after (l ++ l') = (c.after l).after l' :=
  List.foldl_append

theorem after_concat (c : Context) (l : List Command) (command : Command) :
    c.after (l ++ [command]) = ((perform command).run (c.after l)).2 :=
  after_append c l [command]

theorem ran_concat (options : ContextOptions) (l : List Command) (command : Command) :
    ran options (l ++ [command]) = ((perform command).run (ran options l)).2 :=
  after_concat _ l command

/-- Two launches on arrays of their own. -/
def fork : List Command :=
  [.device (.allocate 4), .device (.allocate 4),
   .register (.new (.launch 1 "left" {}) [.array .float 0 false]),
   .register (.new (.launch 2 "right" {}) [.array .float 1 false])]

/-- A launch on the arrays of both. -/
def join : Command :=
  .register (.new (.launch 3 "join" {}) [.array .float 0 true, .array .float 1 false])

theorem contained_new (work : Work) (arguments : List Argument) :
    (Command.register (.new work arguments)).Contained ∧
      (Command.register (.new work arguments)).IsFresh :=
  ⟨.inl (Element.unused_new work arguments), fun _ => rfl⟩

theorem contained_forkJoin (more : List Device.Command)
    (hmore : ∀ command ∈ more, command.isContained = true) :
    ∀ command ∈ fork ++ join :: more.map .device, command.Contained ∧ command.IsFresh := by
  have hfork : ∀ command ∈ fork ++ [join], command.Contained ∧ command.IsFresh := by
    simp only [fork, join, List.cons_append, List.nil_append, List.forall_mem_cons]
    exact ⟨⟨rfl, trivial⟩, ⟨rfl, trivial⟩, contained_new _ _, contained_new _ _, contained_new _ _,
      by simp⟩
  simp only [List.mem_append, List.mem_cons, List.mem_map]
  rintro command (hmem | rfl | ⟨d, hd, rfl⟩)
  · exact hfork command (by simp [hmem])
  · exact hfork join (by simp)
  · exact ⟨hmore d hd, trivial⟩

end Context

namespace Stage

variable {s : Stage}

/-- A command that changes what the device will refuse or fail leaves all work as it is. -/
theorem Coherent.disturb (h : s.Coherent) {command : Device.Command}
    (hc : command.isDisturbing = true) :
    ∃ r t, (Context.onDevice (Device.perform command)).run s.toContext = (r, Stage.toContext t) ∧
      Disturbance s t ∧ Unstalled r := by
  have hsettings : ∀ {r : Except Halt Device.Reply} {d : Device},
      (Device.perform command).run s.device = (r, d) → d.faults = s.device.faults →
      s.machine.SameWork d.machine → Unstalled r → ∃ r t,
        (Context.onDevice (Device.perform command)).run s.toContext = (r, Stage.toContext t) ∧
        Disturbance s t ∧ Unstalled r := fun hrun hf hwork hr =>
    ⟨_, { s with device := _ }, Context.run_onDevice hrun,
      ⟨rfl, rfl, rfl, rfl, rfl, rfl, hf, hwork⟩, hr⟩
  cases command with
  | rejectLaunches label => exact hsettings rfl rfl ⟨rfl, rfl, rfl, rfl, rfl⟩ (.ok _)
  | failExecutions label => exact hsettings rfl rfl ⟨rfl, rfl, rfl, rfl, rfl⟩ (.ok _)
  | limitStreams limit => exact hsettings rfl rfl ⟨rfl, rfl, rfl, rfl, rfl⟩ (.ok _)
  | free b =>
      by_cases hb : s.machine.buffers.contains b = true
      · have hrun : (Machine.free b).run s.machine =
            (.ok (), { s.machine with buffers := s.machine.buffers.erase b }) := if_pos hb
        exact hsettings (Action.run_bind_ok (Device.run_call h.faults hrun)) rfl
          ⟨rfl, rfl, rfl, rfl, rfl⟩ (.ok _)
      · have hrun : (Machine.free b).run s.machine =
            (.error (.error (.invalidBuffer b)), s.machine) := if_neg hb
        refine hsettings (Action.run_bind_error (Device.run_call h.faults hrun)) rfl
          ⟨rfl, rfl, rfl, rfl, rfl⟩ ?_
        rintro _ ⟨⟩
        exact fun hstall => hstall
  | _ => cases hc

/-- Every command ends in a stage that is coherent and where nothing is due, and none finds the
device stuck. -/
theorem Coherent.perform_ruled {P : Rules} (h : s.Coherent) (hd : s.due = [])
    {command : Context.Command} (hc : command.Contained)
    (hP : ∀ e, command.Submits s.toContext e → ∀ t, Moves P s t → P.admits t e)
    (hI : ∀ v t, Context.IssuePoint s.toContext command v (Stage.toContext t) → P.hands t v) :
    ∃ r t, (Context.perform command).run s.toContext = (r, Stage.toContext t) ∧
      Steps P s t ∧ t.due = [] ∧ Unstalled r := by
  by_cases hcalm : command.isCalm = true
  · obtain ⟨r, t, hrun, hmoves, ht⟩ := h.perform hd hc hcalm hP hI
    exact ⟨r, t, hrun, hmoves.steps, ht⟩
  · cases command with
    | device command =>
        have hdisturbing : command.isDisturbing = true := by
          simpa [Context.Command.isCalm] using hcalm
        obtain ⟨r, t, hrun, hdist, hr⟩ := h.disturb hdisturbing
        have hsteps : Steps P s t := .single (.inr hdist)
        cases r with
        | ok reply =>
            exact ⟨_, t, Action.run_bind_ok hrun, hsteps, hdist.due.trans hd, .ok _⟩
        | error halt =>
            refine ⟨_, t, Action.run_bind_error hrun, hsteps, hdist.due.trans hd, ?_⟩
            rintro _ ⟨⟩
            exact hr halt rfl
    | _ => exact absurd rfl hcalm

theorem Coherent.perform_steps {P : Stage → Element → Prop} (h : s.Coherent) (hd : s.due = [])
    {command : Context.Command} (hc : command.Contained)
    (hP : ∀ e, command.Submits s.toContext e → ∀ t, Moves P s t → P t e) :
    ∃ r t, (Context.perform command).run s.toContext = (r, Stage.toContext t) ∧
      Steps P s t ∧ t.due = [] ∧ Unstalled r :=
  h.perform_ruled hd hc hP fun _ _ _ => trivial

/-- Every contained run from a coherent stage is a sequence of moves and disturbances, and vertices
are handed to the device at the issue points of its commands only. -/
theorem Coherent.after_ruled {P : Rules} (h : s.Coherent) (hd : s.due = [])
    {commands : List Context.Command} (hc : ∀ command ∈ commands, command.Contained)
    (hP : ∀ command ∈ commands, ∀ c e, command.Submits c e → ∀ t, P.admits t e)
    (hI : ∀ earlier command later, commands = earlier ++ command :: later → ∀ v t,
      Context.IssuePoint (s.toContext.after earlier) command v (Stage.toContext t) →
      P.hands t v) :
    ∃ t, Stage.toContext t = s.toContext.after commands ∧ Steps P s t ∧ t.due = [] := by
  induction commands generalizing s with
  | nil => exact ⟨s, rfl, .refl, hd⟩
  | cons command rest ih =>
      obtain ⟨r, t, hrun, hsteps, hdue, -⟩ := h.perform_ruled hd (hc command (by simp))
        (fun e he t _ => hP command (by simp) _ e he t) (hI [] command rest rfl)
      have hafter : ∀ more, s.toContext.after (command :: more) = (Stage.toContext t).after more :=
        fun more => by simp only [Context.after, List.foldl_cons, hrun]
      obtain ⟨u, hu, hmore, hend⟩ := ih (h.steps hsteps) hdue
        (fun c hmem => hc c (by simp [hmem])) (fun c hmem => hP c (by simp [hmem]))
        fun earlier c later heq v w hw => hI (command :: earlier) c later (by simp [heq]) v w
          (by rw [hafter]; exact hw)
      exact ⟨u, hu.trans (hafter rest).symm, hsteps.trans hmore, hend⟩

theorem Coherent.after_steps {P : Stage → Element → Prop} (h : s.Coherent) (hd : s.due = [])
    {commands : List Context.Command} (hc : ∀ command ∈ commands, command.Contained)
    (hP : ∀ command ∈ commands, ∀ c e, command.Submits c e → ∀ t, P t e) :
    ∃ t, Stage.toContext t = s.toContext.after commands ∧ Steps P s t ∧ t.due = [] :=
  h.after_ruled hd hc hP fun _ _ _ _ _ _ _ => trivial

/-- **The context after a contained run** is that of a coherent stage where nothing is due. -/
theorem exists_stage_ran {P : Stage → Element → Prop} (options : ContextOptions)
    {commands : List Context.Command} (hc : ∀ command ∈ commands, command.Contained)
    (hP : ∀ command ∈ commands, ∀ c e, command.Submits c e → ∀ t, P t e) :
    ∃ s, Stage.toContext s = Context.ran options commands ∧ Steps P (.initial options) s ∧
      s.Coherent ∧ s.due = [] := by
  obtain ⟨s, hs, hsteps, hdue⟩ := (Coherent.initial options).after_steps rfl hc hP
  exact ⟨s, hs, hsteps, (Coherent.initial options).steps hsteps, hdue⟩

end Stage

end LaunchGraph
