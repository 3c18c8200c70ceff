import LaunchGraph.Proofs.Lives
import LaunchGraph.Proofs.SequentialRuns

/-!
# Scripts — runs whose launches are known beforehand

A script lists the labels of the work that is going to be submitted, in order.  In a run that
follows it, vertex `n` has the label that stands at `n` (`Stage.Follows`).  The device knows work by
its label only, and it knows each launch by the label of its vertex (`Stage.Labelled`).  So when
everything has finished, the device has executed the labels of the script, each as often as it
occurs there (`Stage.Coherent.executed_perm`).
-/

namespace LaunchGraph

open Machine

namespace Stage

/-- What a script admits next: an element with the label that comes next, on allocated buffers. -/
def Scripted (labels : List String) (s : Stage) (e : Element) : Prop :=
  labels[s.dag.vertices.length]? = some e.label ∧
    ∀ b, e.touches b = true → b ∈ s.machine.buffers

/-- The vertices have the labels of the script, in order. -/
def Follows (labels : List String) (s : Stage) : Prop :=
  ∀ v el, s.dag.element? v = some el → labels[v]? = some el.label

/-- The job is the launch of a vertex, under the label of the vertex. -/
def Names (s : Stage) (job : Job) : Prop :=
  ∃ v el, job.vertex = some v ∧ s.dag.element? v = some el ∧ el.label = job.label

/-- The device knows every launch by the label of its vertex. -/
structure Labelled (s : Stage) : Prop where
  queued : ∀ u lane, s.machine.streams.get? u = some lane → ∀ job, .launch job ∈ lane.ops →
    s.Names job
  ran : ∀ r ∈ s.machine.history, ∀ job, r.op = .launch job → s.Names job

variable {P : Rules} {s t : Stage} {labels : List String}

/-- A script is followed step by step. -/
theorem Follows.move (hf : s.Follows labels) (h : s.Coherent) (hm : Move (Scripted labels) s t) :
    t.Follows labels := by
  intro v el hv
  rcases h.element_cases hm hv with ⟨x, hx, hturns⟩ | ⟨rfl, -, e, ⟨hnext, -⟩, hwork⟩
  · rw [hf v x hx, Element.label, Element.label, hturns.work]
  · rw [hnext, Element.label, Element.label, hwork]

theorem follows_moves {options : ContextOptions}
    (hm : Moves (Scripted labels) (.initial options) s) : s.Follows labels := by
  induction hm with
  | refl => simp [Follows, Stage.initial, Context.new, Dag.element?]
  | tail hm hstep ih => exact ih.move ((Coherent.initial options).moves hm) hstep

/-- There are no more vertices than the script has labels. -/
theorem Follows.length_le (hf : s.Follows labels) : s.dag.vertices.length ≤ labels.length := by
  by_contra hlt
  obtain ⟨el, hel⟩ := Dag.exists_element? (Nat.not_le.mp hlt)
  have hlabel := hf _ el hel
  simp at hlabel

/-- The work of a vertex stays, and so does the name of a job. -/
theorem Names.move {job : Job} (hn : s.Names job) (h : s.Coherent) (hm : Move P s t) :
    t.Names job := by
  obtain ⟨v, el, hv, hel, hlabel⟩ := hn
  obtain ⟨el', hel', hturns⟩ := h.turns hm hel
  exact ⟨v, el', hv, hel', by rw [← hlabel, Element.label, Element.label, hturns.work]⟩

/-- What a move leaves on a stream is labelled. -/
theorem Labelled.requeued (hl : s.Labelled) (h : s.Coherent) {u : StreamId} {lane : Lane}
    (hlane : Requeued P s t u lane) {job : Job} (hjob : .launch job ∈ lane.ops) : s.Names job := by
  cases hlane with
  | kept hlane => exact hl.queued u lane hlane job hjob
  | fresh => cases hjob
  | retired hlane => exact hl.queued u _ hlane job (List.mem_cons_of_mem _ hjob)
  | refused hlane =>
      rcases List.mem_append.mp hjob with hjob | hjob
      · exact hl.queued u _ hlane job hjob
      · simp at hjob
  | @issued v _ el _ _ hlane _ hv =>
      rcases List.mem_append.mp hjob with hjob | hjob
      · exact hl.queued u _ hlane job hjob
      · obtain rfl : job = ⟨el.id, el.label, s.machine.failing.contains el.label⟩ := by
          simpa using hjob
        exact ⟨v, el, h.numbered v el hv, hv, rfl⟩

/-- **Every move keeps the launches labelled.** -/
theorem Labelled.move (hl : s.Labelled) (h : s.Coherent) (hm : Move P s t) : t.Labelled where
  queued u lane hlane job hjob := (hl.requeued h (h.requeued hm hlane) hjob).move h hm
  ran r hr job hop := by
    rcases h.retired_cases hm hr with hr | ⟨rest, p, hlane, -⟩
    · exact (hl.ran r hr job hop).move h hm
    · exact (hl.queued _ _ hlane job (by simp [hop])).move h hm

theorem labelled_moves {options : ContextOptions} (hm : Moves P (.initial options) s) :
    s.Labelled := by
  induction hm with
  | refl => exact ⟨by simp [Stage.initial, Context.new], by simp [Stage.initial, Context.new]⟩
  | tail hm hstep ih => exact ih.move ((Coherent.initial options).moves hm) hstep

/-- Where everything has finished, no launch has failed. -/
theorem Coherent.launch_succeeded (h : s.Coherent)
    (hfinished : ∀ v < s.dag.vertices.length, s.dag.IsFinished v) {r : Retired}
    (hr : r ∈ s.machine.history) {job : Job} (hop : r.op = .launch job) {v : VertexId}
    (hj : job.vertex = some v) : r.failed = false := by
  have hlt := (h.mem_launched hfinished v).mp (mem_launchedVertices.mpr ⟨r, hr, job, hop, hj⟩)
  obtain ⟨k, -, rfl, hran⟩ := h.timeline.ran_of_finished v (hfinished v hlt)
  obtain ⟨job', hmem, hj'⟩ := hran.launched
  rw [eq_of_launchedVertices h.timeline.ledger.launched_nodup hr hmem hop hj rfl hj']

/-- Where everything has finished, what was executed are the labels of the vertices, in the order
of their launches. -/
theorem Coherent.executed_eq (h : s.Coherent) (hl : s.Labelled) (hf : s.Follows labels)
    (hfinished : ∀ v < s.dag.vertices.length, s.dag.IsFinished v) :
    s.machine.executed = (launchedVertices s.machine.history).map (labels.getD · "") := by
  rw [Machine.executed, launchedVertices, List.map_filterMap]
  refine List.filterMap_congr fun r hr => ?_
  cases hop : r.op with
  | wait e => simp [Retired.executed?, hop]
  | record e => simp [Retired.executed?, hop]
  | launch job =>
      obtain ⟨v, el, hj, hel, hlabel⟩ := hl.ran r hr job hop
      simp [Retired.executed?, hop, h.launch_succeeded hfinished hr hop hj, hj, ← hlabel,
        hf v el hel]

/-- **When everything has finished, the script has been executed**, each label as often as it occurs
there. -/
theorem Coherent.executed_perm (h : s.Coherent) (hl : s.Labelled) (hf : s.Follows labels)
    (hfinished : ∀ v < s.dag.vertices.length, s.dag.IsFinished v)
    (hlength : s.dag.vertices.length = labels.length) : s.machine.executed.Perm labels := by
  have hperm : (launchedVertices s.machine.history).Perm (List.range labels.length) := by
    refine (List.perm_ext_iff_of_nodup h.timeline.ledger.launched_nodup List.nodup_range).mpr ?_
    intro v
    rw [h.mem_launched hfinished, hlength, List.mem_range]
  have hlabels : (List.range labels.length).map (labels.getD · "") = labels :=
    List.ext_getElem (by simp) fun i _ hi => by simp [hi]
  rw [h.executed_eq hl hf hfinished]
  exact (hperm.map (labels.getD · "")).trans (.of_eq hlabels)

/-! ### Runs that are on a script -/

/-- The stage is on the way of a run that follows a script, and nothing is due. -/
structure OnScript (options : ContextOptions) (labels : List String) (s : Stage) : Prop where
  moves : Moves (Scripted labels) (.initial options) s
  due : s.due = []

namespace OnScript

variable {options : ContextOptions}

theorem initial : (Stage.initial options).OnScript options labels := ⟨.refl, rfl⟩

theorem coherent (h : s.OnScript options labels) : s.Coherent :=
  (Coherent.initial options).moves h.moves

theorem failureFree (h : s.OnScript options labels) : s.FailureFree :=
  (FailureFree.initial options).moves (.initial options)
    (fun _ _ (hP : Scripted labels _ _) => hP.2) h.moves

theorem next (h : s.OnScript options labels) (hm : Moves (Scripted labels) s t)
    (hd : t.due = []) : t.OnScript options labels :=
  ⟨h.moves.trans hm, hd⟩

theorem length_le (h : s.OnScript options labels) : s.dag.vertices.length ≤ labels.length :=
  (follows_moves h.moves).length_le

end OnScript

end Stage

end LaunchGraph
