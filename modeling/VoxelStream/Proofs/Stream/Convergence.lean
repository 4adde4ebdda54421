import VoxelStream.Proofs.Stream.Figures

/-!
# Passes under one view

A worker that changed something passes again at once, so it had better come to an end under a view
that stays. It does, whatever fails, as long as no fault takes the streamer along. The first pass
leaves nothing visible that is not in view. From then on the visible set only grows, by nodes that
failed before, and a pass changes something just if it grew (`Stage.Advance.changed_iff_lt`). So
there are at most as many further passes that change something as nodes failed in the first
(`Stage.countP_changed_le`). Once a pass got every node that it asked for, the next one leaves the
generator and the sink alone.

A stage is a streamer between two passes with what its passes use, and `Stage.exists_passes` says
all that one pass can do to it. The results about many passes need nothing else of passes.
-/

namespace VoxelStream

variable {γ : Type} {G : Generator γ} {c : Config}

/-- All faults of the generator end at the guard around its calls. -/
def Generator.Catchable (G : Generator γ) : Prop :=
  ∀ n g f g', G.generate n g = (.error f, g') → f.isFatal = false

/-- What is fetched by way of such a generator may be missing, but the caller lives. -/
theorem Cache.Fetched.isFatal_eq_false (hG : G.Catchable) {cache cache' : Cache} {n : Node}
    {g g' : γ} {e : FetchError} (h : Fetched G cache n g (.error e) cache' g') :
    e.isFatal = false := by
  cases h with
  | refused _ hg _ => exact hG _ _ _ _ hg
  | wrong _ _ _ _ => rfl
  | outside _ => rfl

/-- So nodes are resolved to the end, though perhaps not all are had. -/
theorem Resolution.resolve_of_catchable (hG : G.Catchable) {r : Resolution} (l : List Node) (g : γ)
    (hc : r.cache.Sound) : ∃ r' g', r.resolve G l g = (some r', g') := by
  induction l generalizing r g with
  | nil => exact ⟨r, g, rfl⟩
  | cons m rest ih =>
    have hf := Cache.fetch_fetched hc G m g
    have hc' := hc.fetch G m g
    rcases heq : r.cache.fetch G m g with ⟨e | chunk, cache, g₁⟩
    all_goals
      rw [heq] at hf hc'
      rw [resolve, heq]
    · dsimp only
      rw [if_neg (by simp [hf.isFatal_eq_false hG])]
      exact ih g₁ hc'
    · exact ih g₁ hc'

/-! ## One pass -/

/-- A turn of no chunks is one of no nodes. -/
theorem Streamer.Turn.eq_nil_iff {old : NodeSet} {next : Streamer} {removed added : List Chunk}
    (h : Turn old next removed added) : removed = [] ∧ added = [] ↔ next.visible = old := by
  constructor
  · rintro ⟨rfl, rfl⟩
    refine Std.ExtTreeSet.ext_mem fun n => ⟨fun hn => ?_, fun hn => ?_⟩
    · by_contra ho
      cases (h.mem_added_iff n).2 ⟨hn, ho⟩
    · by_contra hv
      cases (h.mem_removed_iff n).2 ⟨hn, hv⟩
  · rintro rfl
    constructor
    · refine List.eq_nil_iff_forall_not_mem.2 fun d hd => ?_
      have hn := (h.mem_removed_iff d.node).1 (List.mem_map_of_mem hd)
      exact hn.2 hn.1
    · refine List.eq_nil_iff_forall_not_mem.2 fun d hd => ?_
      have hn := (h.mem_added_iff d.node).1 (List.mem_map_of_mem hd)
      exact hn.2 hn.1

/-- A streamer between two passes, with the generator and the retained set that they use. -/
structure Stage (γ : Type) where
  streamer : Streamer
  generator : γ
  sink : Retained

namespace Stage

variable {v : View} {nodes : NodeSet} {a b : Stage γ} {changed : Bool}

/-- One pass under the view leads from the one stage to the other, and it changed something or
not. -/
def Passes (G : Generator γ) (v : View) (a b : Stage γ) (changed : Bool) : Prop :=
  a.streamer.pass G Retained.sink v a.generator a.sink =
    (some (b.streamer, changed), b.generator, b.sink)

/-- The nodes that a pass under the view asks for and does not get. -/
def failing (G : Generator γ) (v : View) (a : Stage γ) : NodeSet :=
  match a.streamer.inView v with
  | .error _ => ∅
  | .ok nodes =>
    match Resolution.resolve G ⟨a.streamer.cache, #[], ∅⟩
      (NodeDiff.between a.streamer.visible nodes).toAdd a.generator with
    | (some r, _) => r.failed
    | (none, _) => ∅

/-- What a pass under a view of `nodes` does, of which it gets all but `failed`. -/
structure Advance (c : Config) (v : View) (nodes failed : NodeSet) (a b : Stage γ)
    (changed : Bool) : Prop where
  mirrored : b.streamer.Mirrored c b.sink
  inView_eq : b.streamer.inView v = .ok nodes
  visible_eq : b.streamer.visible = nodes \ failed
  failed_new : ∀ n ∈ failed, n ∈ nodes ∧ n ∉ a.streamer.visible
  changed_iff : changed = true ↔ b.streamer.visible ≠ a.streamer.visible
  keeps : ∀ {n chunk}, a.streamer.cache.find? n = some chunk →
    b.streamer.cache.find? n = some chunk
  failures_eq : b.streamer.stats.failures = a.streamer.stats.failures + failed.size

/-- A pass fails to get the nodes that its resolution failed on. -/
theorem failing_eq {r : Resolution} {g' : γ} (hv : a.streamer.inView v = .ok nodes)
    (hr : Resolution.resolve G ⟨a.streamer.cache, #[], ∅⟩
      (NodeDiff.between a.streamer.visible nodes).toAdd a.generator = (some r, g')) :
    a.failing G v = r.failed := by
  unfold failing
  rw [hv]
  dsimp only
  rw [hr]

/-- There is nothing to do if the view shows what is visible. -/
theorem advance_same (ha : a.streamer.Mirrored c a.sink) (hv : a.streamer.inView v = .ok nodes)
    (hsame : nodes = a.streamer.visible) :
    Advance c v nodes (a.failing G v) a { a with streamer := a.streamer.countIteration } false := by
  have hempty : (NodeDiff.between nodes nodes).isEmpty = true :=
    NodeDiff.isEmpty_between_iff.2 rfl
  unfold NodeDiff.isEmpty at hempty
  rw [Bool.and_eq_true, List.isEmpty_iff] at hempty
  have hresolve : Resolution.resolve G ⟨a.streamer.cache, #[], ∅⟩
      (NodeDiff.between a.streamer.visible nodes).toAdd a.generator =
        (some ⟨a.streamer.cache, #[], ∅⟩, a.generator) := by
    rw [← hsame, hempty.1]
    rfl
  rw [failing_eq hv hresolve]
  refine ⟨⟨ha.1.of_eq rfl rfl rfl rfl, ha.2⟩, hv, ?_, by simp, ?_, id, rfl⟩
  · rw [hsame]
    exact Std.ExtTreeSet.ext_mem fun n => by simp [Streamer.countIteration]
  · constructor
    · intro hfalse
      cases hfalse
    · intro hne
      exact absurd rfl hne

/-- Otherwise the sink is handed what leaves and what comes. -/
theorem advance_change {next : Streamer} {removed added : List Chunk} {g' : γ}
    (ha : a.streamer.Mirrored c a.sink) (hv : a.streamer.inView v = .ok nodes)
    (hp : Streamer.Planned G a.streamer nodes a.generator (.change next removed added) g') :
    Advance c v nodes (a.failing G v) a
      ⟨next.refresh, g', (a.sink.remove removed).add added⟩
      (!removed.isEmpty || !added.isEmpty) := by
  obtain ⟨hserves, hmirrors⟩ := ha
  obtain ⟨hnext, -⟩ := hserves.planned hv hp
  have hsucc := hp.succeeds hserves.sound
  have hturn := hp.turn hserves.sound fun n hn => by
    obtain ⟨chunk, hc, -⟩ := hmirrors.of_mem n hn
    exact ⟨chunk, hc⟩
  obtain ⟨r, hr, hadopt⟩ : ∃ r, Resolution.resolve G ⟨a.streamer.cache, #[], ∅⟩
      (NodeDiff.between a.streamer.visible nodes).toAdd a.generator = (some r, g') ∧
        next = a.streamer.countIteration.adopt nodes removed r := by
    cases hp with
    | change _ hr _ => exact ⟨_, hr, rfl⟩
  rw [failing_eq hv hr]
  refine ⟨⟨hnext.of_eq rfl rfl rfl rfl, ?mirrors⟩, ?inView, ?visible, ?fresh, ?changed, hsucc.keeps,
    ?failures⟩
  case mirrors => exact ((hmirrors.mono hsucc.keeps).remove hturn).add hturn
  case inView =>
    show next.tree.query v.camera.position v.camera.frustum next.query = .ok nodes
    rw [hsucc.tree_eq, hsucc.query_eq]
    exact hv
  case visible =>
    rw [hadopt]
    rfl
  case fresh =>
    intro n hn
    rcases Resolution.mem_of_mem_failed hr hn with hn | hn
    · simp at hn
    · exact NodeDiff.mem_toAdd.1 hn
  case changed =>
    show _ ↔ next.visible ≠ a.streamer.visible
    rw [← not_iff_not, not_not, ← hturn.eq_nil_iff]
    simp
  case failures =>
    rw [hadopt]
    rfl

/-- One pass, if no fault takes the streamer along. -/
theorem exists_passes (hG : G.Catchable) (ha : a.streamer.Mirrored c a.sink)
    (hv : a.streamer.inView v = .ok nodes) : ∃ b changed, a.Passes G v b changed ∧
      Advance c v nodes (a.failing G v) a b changed := by
  have hplanned := Streamer.plan_planned G a.generator hv
  unfold Passes Streamer.pass
  rcases hplan : a.streamer.plan G v a.generator with ⟨_ | s | ⟨next, removed, added⟩, g'⟩
  all_goals rw [hplan] at hplanned
  · cases hplanned with
    | lost hr =>
      obtain ⟨r, g₁, hr'⟩ := Resolution.resolve_of_catchable hG
        (r := ⟨a.streamer.cache, #[], ∅⟩) _ a.generator ha.1.sound
      rw [hr] at hr'
      cases hr'
  · cases hplanned with
    | same hsame => exact ⟨_, false, rfl, advance_same ha hv hsame⟩
  · exact ⟨_, _, rfl, advance_change ha hv hplanned⟩

namespace Advance

variable {failed : NodeSet}

/-- After a pass nothing is visible but what is in view. -/
theorem subset (h : Advance c v nodes failed a b changed) : ∀ n ∈ b.streamer.visible, n ∈ nodes := by
  intro n hn
  rw [h.visible_eq] at hn
  exact (Std.ExtTreeSet.mem_diff_iff.1 hn).1

/-- Nodes in view that were visible stay so. -/
theorem stays (h : Advance c v nodes failed a b changed) {n : Node} (hn : n ∈ a.streamer.visible)
    (hview : n ∈ nodes) : n ∈ b.streamer.visible := by
  rw [h.visible_eq]
  exact Std.ExtTreeSet.mem_diff_iff.2 ⟨hview, fun hf => (h.failed_new n hf).2 hn⟩

/-- What is retained of a node that stays is the same chunk as before. -/
theorem chunkOf_eq (h : Advance c v nodes failed a b changed) (ha : a.streamer.Mirrored c a.sink)
    {n : Node} {chunk : Chunk} (hn : n ∈ b.streamer.visible)
    (hc : a.sink.chunkOf n = some chunk) : b.sink.chunkOf n = some chunk := by
  have hold : n ∈ a.streamer.visible := ha.2.isSome_iff.1 (by rw [hc]; rfl)
  obtain ⟨chunk', hcached, hretained⟩ := ha.2.of_mem n hold
  rw [hc] at hretained
  cases hretained
  obtain ⟨chunk'', hcached', hretained'⟩ := h.mirrored.2.of_mem n hn
  rw [h.keeps hcached] at hcached'
  cases hcached'
  exact hretained'

/-- A pass that finds nothing visible out of view changes something just if more is visible after
it. -/
theorem changed_iff_lt (h : Advance c v nodes failed a b changed)
    (hsub : ∀ n ∈ a.streamer.visible, n ∈ nodes) :
    changed = true ↔ a.streamer.visible.size < b.streamer.visible.size := by
  rw [h.changed_iff, NodeDiff.size_lt_iff_ne fun n hn => h.stays hn (hsub n hn)]

/-- What was got and what was not is all that is in view. -/
theorem size_add_size (h : Advance c v nodes failed a b changed) :
    b.streamer.visible.size + failed.size = nodes.size := by
  rw [h.visible_eq]
  exact NodeDiff.size_diff_add_size fun n hn => (h.failed_new n hn).1

/-- When all was got, the next pass calls nobody, whatever the generator and the sink. -/
theorem pass_of_failed_eq_empty (h : Advance c v nodes ∅ a b changed) :
    b.streamer.visible = nodes ∧ ∀ {γ' σ' : Type} (G' : Generator γ') (K : Sink σ') (g : γ') (k : σ'),
      b.streamer.pass G' K v g k = (some (b.streamer.countIteration, false), g, k) := by
  have hvisible : b.streamer.visible = nodes := by
    rw [h.visible_eq]
    exact Std.ExtTreeSet.ext_mem fun n => by simp
  refine ⟨hvisible, fun G' K g k => ?_⟩
  unfold Streamer.pass
  rw [Streamer.plan_of_inView_eq G' g (hvisible ▸ h.inView_eq)]

end Advance

/-! ## Passes one after the other -/

/-- Passes can go on and on. -/
theorem exists_stages (hG : G.Catchable) (start : Stage γ)
    (hstart : start.streamer.Mirrored c start.sink) (hv : start.streamer.inView v = .ok nodes) :
    ∃ (a : Nat → Stage γ) (changed : Nat → Bool), a 0 = start ∧
      (∀ i, (a i).streamer.Mirrored c (a i).sink) ∧
      (∀ i, (a i).Passes G v (a (i + 1)) (changed i)) ∧
      ∀ i, Advance c v nodes ((a i).failing G v) (a i) (a (i + 1)) (changed i) := by
  have hnext : ∀ b : Stage γ, b.streamer.Mirrored c b.sink ∧ b.streamer.inView v = .ok nodes →
      ∃ b' changed, b.Passes G v b' changed ∧
        Advance c v nodes (b.failing G v) b b' changed := fun b hb => exists_passes hG hb.1 hb.2
  have : Nonempty (Stage γ) := ⟨start⟩
  choose! next changed hpasses hadvance using hnext
  have hall : ∀ i, (next^[i] start).streamer.Mirrored c (next^[i] start).sink ∧
      (next^[i] start).streamer.inView v = .ok nodes := by
    intro i
    induction i with
    | zero => exact ⟨hstart, hv⟩
    | succ i ih =>
      rw [Function.iterate_succ_apply']
      exact ⟨(hadvance _ ih).mirrored, (hadvance _ ih).inView_eq⟩
  refine ⟨fun i => next^[i] start, fun i => changed (next^[i] start), rfl, fun i => (hall i).1,
    fun i => ?_, fun i => ?_⟩
  · dsimp only
    rw [Function.iterate_succ_apply']
    exact hpasses _ (hall i)
  · dsimp only
    rw [Function.iterate_succ_apply']
    exact hadvance _ (hall i)

section
variable {a : Nat → Stage γ} {changed : Nat → Bool}
  (h : ∀ i, Advance c v nodes ((a i).failing G v) (a i) (a (i + 1)) (changed i))
include h

/-- After the first pass every pass that changes something makes more visible. -/
theorem countP_changed_add_size_le (m : Nat) :
    (List.range (m + 1)).countP changed + (a 1).streamer.visible.size ≤
      1 + (a (m + 1)).streamer.visible.size := by
  induction m with
  | zero => exact Nat.add_le_add_right List.countP_le_length _
  | succ m ih =>
    have hlt := (h (m + 1)).changed_iff_lt (h m).subset
    have hle : (a (m + 1)).streamer.visible.size ≤ (a (m + 1 + 1)).streamer.visible.size := by
      have := NodeDiff.size_diff_add_size fun n hn => (h (m + 1)).stays hn ((h m).subset n hn)
      omega
    rw [List.range_succ, List.countP_append, List.countP_singleton]
    split
    · next hchanged =>
      have := hlt.1 hchanged
      omega
    · omega

/-- Only nodes that failed in the first pass can come later, so no more passes than that many
change something besides the first. -/
theorem countP_changed_le (m : Nat) :
    (List.range m).countP changed ≤ 1 + ((a 0).failing G v).size := by
  cases m with
  | zero => exact Nat.zero_le _
  | succ m =>
    have hcount := countP_changed_add_size_le h m
    have hfirst : (a 1).streamer.visible.size + ((a 0).failing G v).size = nodes.size :=
      (h 0).size_add_size
    have hlast := (h m).size_add_size
    omega

end

end Stage

/-! ## Streamers of a session -/

/-- A streamer at which no pass is halfway through is mirrored. -/
theorem Place.Mirrored.settled {p : Place} {r : Retained} {s : Streamer} (h : p.Mirrored c r)
    (hs : p.settled? = some s) : s.Mirrored c r := by
  cases p with
  | lost => cases hs
  | resting s' =>
    cases hs
    exact h
  | passing v p =>
    cases p with
    | begun s' | ended s' changed =>
      cases hs
      exact h
    | resolved _ _ _ _ | withdrawn _ _ _ => cases hs

/-- From wherever a run of a session has brought the streamer, passes under one view can follow each
other without end if the faults are caught. After the first nothing is visible that is not in view.
Each later one leaves visible and retained what there is, and it changes something just if it makes
more visible, which happens at most as often as nodes failed in the first. After one in which none
failed all that is in view is visible, and the next one counts itself and does nothing else. -/
theorem Session.converges {φ : Type} {F : Generator φ} (hF : F.Catchable) (f : φ) {g : γ}
    {events : List Event} {x : Session γ Retained} {s : Streamer}
    (h : x.Reached G Retained.sink c g .empty events) (hs : x.place.settled? = some s) (v : View) :
    ∃ (nodes : NodeSet) (a : Nat → Stage φ) (changed : Nat → Bool),
      s.inView v = .ok nodes ∧ a 0 = ⟨s, f, x.shared.sink⟩ ∧
      (∀ i, (a i).Passes F v (a (i + 1)) (changed i)) ∧
      (∀ i, ∀ n ∈ (a (i + 1)).streamer.visible, n ∈ nodes) ∧
      (∀ i, (∀ n ∈ (a (i + 1)).streamer.visible, n ∈ (a (i + 2)).streamer.visible) ∧
        (∀ n chunk, (a (i + 1)).sink.chunkOf n = some chunk →
          (a (i + 2)).sink.chunkOf n = some chunk) ∧
        (changed (i + 1) = true ↔
          (a (i + 1)).streamer.visible.size < (a (i + 2)).streamer.visible.size)) ∧
      (∀ m, (List.range m).countP changed ≤ 1 + ((a 0).failing F v).size) ∧
      ∀ i, (a (i + 1)).streamer.stats.failures =
          (a i).streamer.stats.failures + ((a i).failing F v).size ∧
        ((a i).failing F v = ∅ → (a (i + 1)).streamer.visible = nodes ∧
          ∀ {γ' σ' : Type} (G' : Generator γ') (K : Sink σ') (g' : γ') (k : σ'),
            (a (i + 1)).streamer.pass G' K v g' k =
              (some ((a (i + 1)).streamer.countIteration, false), g', k)) := by
  obtain ⟨nodes, hv⟩ := s.exists_inView v
  have hmirrored : s.Mirrored c x.shared.sink := Place.Mirrored.settled h.mirrored.2.2 hs
  obtain ⟨a, changed, hstart, hall, hpasses, hadvance⟩ :=
    Stage.exists_stages hF ⟨s, f, x.shared.sink⟩ hmirrored hv
  refine ⟨nodes, a, changed, hv, hstart, hpasses, fun i => (hadvance i).subset, fun i => ?later,
    Stage.countP_changed_le hadvance, fun i => ⟨(hadvance i).failures_eq, fun hnone => ?got⟩⟩
  case later =>
    have hstays : ∀ n ∈ (a (i + 1)).streamer.visible, n ∈ (a (i + 2)).streamer.visible :=
      fun n hn => (hadvance (i + 1)).stays hn ((hadvance i).subset n hn)
    refine ⟨hstays, fun n chunk hc => ?_, (hadvance (i + 1)).changed_iff_lt (hadvance i).subset⟩
    have hn : n ∈ (a (i + 1)).streamer.visible :=
      (hall (i + 1)).2.isSome_iff.1 (by rw [hc]; rfl)
    exact (hadvance (i + 1)).chunkOf_eq (hall (i + 1)) (hstays n hn) hc
  case got =>
    have hlast := hadvance i
    rw [hnone] at hlast
    exact hlast.pass_of_failed_eq_empty

/-- Refuses its first call and gives every node an empty chunk from then on. -/
def Generator.balky : Generator Bool :=
  ⟨fun n called => (if called then .ok ⟨n, default⟩ else .error .refused, true)⟩

/-- A new session under the standard view, with a generator that refuses its first call. -/
theorem Session.converges_balky : ∃ (s : Streamer) (nodes : NodeSet) (a : Nat → Stage Bool)
    (changed : Nat → Bool), Streamer.ofConfig {} = .ok s ∧ s.inView {} = .ok nodes ∧
      a 0 = ⟨s, false, .empty⟩ ∧ (∀ i, (a i).Passes .balky {} (a (i + 1)) (changed i)) ∧
      ∀ m, (List.range m).countP changed ≤ 1 + ((a 0).failing .balky {}).size := by
  obtain ⟨s, hs⟩ : ∃ s, Streamer.ofConfig {} = .ok s := ⟨_, rfl⟩
  have hbalky : Generator.balky.Catchable := by
    intro n called f called' h
    cases called with
    | false =>
      cases h
      rfl
    | true => cases h
  have hnew : Reached .balky Retained.sink {} false .empty []
      { config := {}, shared := { generator := false, sink := .empty }, idle := some s } := by
    refine ⟨_, ?_, rfl⟩
    rw [ofConfig, hs]
    rfl
  obtain ⟨nodes, a, changed, hv, hstart, hpasses, -, -, hcount, -⟩ :=
    converges hbalky false hnew rfl {}
  exact ⟨s, nodes, a, changed, hs, hv, hstart, hpasses, hcount⟩

end VoxelStream
