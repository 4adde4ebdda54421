import VoxelStream.Proofs.Stream.Retention

/-!
# No view is missed

A worker that sleeps while nothing is asked of it has passed under the view that the control has,
however the owner's steps fell between its own (`Session.sees_latest`). The reason is a fact about
the pair of a view and its revision that a worker has read: the revision is not past the control's,
and if it is the same then so is the view (`Control.Knows`). Telling another view makes the revision
grow, as long as it does not run over the word, and what is left of the fact is then the first half.

The control's view is the one told last, but for a view that was told although it is the same and
for one that a start is about to store (`Session.Heeds`). A pass under a view with a generator that
never fails brings all that the view shows into the retained set, so what a sleeping worker leaves
there is the answer to the query of the view told last.
-/

namespace VoxelStream

variable {γ σ : Type} {G : Generator γ} {K : Sink σ} {c : Config}

/-! ## Revisions -/

/-- Whoever has read the view and the revision can tell by the revision whether the view is still
the control's. -/
structure Control.Knows (c : Control) (v : View) (rev : UInt64) : Prop where
  revision_le : rev.toNat ≤ c.revision.toNat
  view_eq : rev = c.revision → v = c.view

namespace Control

variable {c : Control} {v w : View} {rev : UInt64}

/-- Who reads now knows. -/
theorem knows_view (c : Control) : c.Knows c.view c.revision := ⟨Nat.le_refl _, fun _ => rfl⟩

/-- Short of the last revision, the next one counts one more. -/
theorem toNat_revision_add_one (h : c.revision.toNat + 1 < 2 ^ 64) :
    (c.revision + 1).toNat = c.revision.toNat + 1 := by
  rw [UInt64.toNat_add]
  exact Nat.mod_eq_of_lt h

/-- Who knows by a revision still knows after a restart, which counts one more. -/
theorem Knows.restart (h : c.Knows v rev) (hlt : c.revision.toNat + 1 < 2 ^ 64) (w : View) :
    (c.restart w).Knows v rev := by
  have hrev : (c.restart w).revision.toNat = c.revision.toNat + 1 := toNat_revision_add_one hlt
  have hle := h.revision_le
  refine ⟨by omega, fun he => ?_⟩
  rw [he] at hle
  omega

/-- Who knows by a revision still knows after another view is told. -/
theorem Knows.tell (h : c.Knows v rev) (hlt : c.revision.toNat + 1 < 2 ^ 64) (w : View) :
    (c.tell w).Knows v rev := by
  unfold Control.tell
  split
  · exact h
  · obtain ⟨hle, heq⟩ := h.restart hlt w
    exact ⟨hle, heq⟩

/-- A view that is told takes one revision at most. -/
theorem toNat_revision_tell_le (hlt : c.revision.toNat + 1 < 2 ^ 64) (w : View) :
    (c.tell w).revision.toNat ≤ c.revision.toNat + 1 := by
  unfold Control.tell
  split
  · exact Nat.le_succ _
  · exact (toNat_revision_add_one hlt).le

end Control

/-- What a worker has read of the control and still goes by. -/
def Worker.read? : Worker → Option (View × UInt64)
  | .passing _ v rev | .pausing _ v rev | .asleep _ v rev => some (v, rev)
  | .checking _ | .finished _ | .died | .joined => none

namespace Worker

variable {w w' : Worker} {m m' : Shared γ σ}

/-- A worker that wakes has read nothing. -/
theorem read?_wake (s : Streamer) (c : Control) : (wake s c).read? = none := by
  unfold wake
  split <;> rfl

/-- A worker that may have to doze has read nothing, or what it had read before. -/
theorem read?_doze (s : Streamer) (v : View) (rev : UInt64) (c : Control) :
    (doze s v rev c).read? = none ∨ (doze s v rev c).read? = some (v, rev) := by
  unfold doze
  split
  · exact .inr rfl
  · exact .inl (read?_wake s c)

/-- A worker between two parts of a pass has read the view that the pass is for. -/
theorem read?_ofPass (v : View) (rev : UInt64) (o : Option Pass) :
    (ofPass v rev o).read? = none ∨ (ofPass v rev o).read? = some (v, rev) := by
  cases o with
  | none => exact .inl rfl
  | some p => exact .inr rfl

/-- After a step a worker goes by what it has read before, by what it has read just now, or by
nothing. -/
theorem read?_of_step (h : w.step G K m = some (w', m')) : w'.read? = none ∨
    w'.read? = w.read? ∨ w'.read? = some (m.control.view, m.control.revision) := by
  cases w with
  | checking s =>
    rw [step] at h
    split at h
    · cases h
      exact .inl rfl
    · cases h
      exact .inr (.inr rfl)
  | passing p v rev =>
    cases p with
    | ended s changed =>
      cases h
      cases changed with
      | true => exact .inl rfl
      | false => exact .inr (.inl rfl)
    | begun _ | resolved _ _ _ _ | withdrawn _ _ _ =>
      cases h
      exact (read?_ofPass v rev _).imp_right .inl
  | pausing s v rev | asleep s v rev =>
    cases h
    exact (read?_doze s v rev _).imp_right .inl
  | finished _ | died | joined => cases h

/-- A worker whose time is over has read nothing. -/
theorem read?_of_timeOut {c : Control} (h : w.timeOut c = some w') : w'.read? = none := by
  cases w with
  | asleep s v rev =>
    cases h
    exact read?_wake s c
  | checking _ | passing _ _ _ | pausing _ _ _ | finished _ | died | joined => cases h

end Worker

/-- Whether an event makes the owner tell a view. -/
def Event.tells : Event → Bool
  | .start _ | .update _ => true
  | .stop | .proceed | .refuse | .work _ | .timeOut _ => false

/-- How many views the owner is yet to store for its calls. -/
def Owner.debt : Owner → Nat
  | .storing _ _ => 1
  | .free | .passing _ _ | .spawning _ | .stopping _ | .joining _ => 0

/-- An owner in a pass owes no view. -/
theorem Owner.debt_ofPass (v : View) (o : Option Pass) : (ofPass v o).debt = 0 := by
  cases o with
  | none => rfl
  | some p => rfl

namespace Session

variable {x y : Session γ σ} {e : Event}

/-! ## What a step does to the threads and to the control -/

/-- The begin of a start stores no view and leaves the threads alone. -/
theorem Starts.keeps {v : View} (h : Starts K x v y) : y.shared.control = x.shared.control ∧
    y.threads = x.threads ∧ y.owner.debt ≤ x.owner.debt + 1 := by
  cases h with
  | refused _ | failed _ _ _ => exact ⟨rfl, rfl, Nat.le_succ _⟩
  | taken _ _ | renewed _ _ _ => exact ⟨rfl, rfl, Nat.le_add_left 1 _⟩

/-- The begin of a stop stores no view and leaves the threads alone. -/
theorem stop_keeps (x : Session γ σ) : x.stop.shared = x.shared ∧ x.stop.threads = x.threads ∧
    x.stop.owner.debt ≤ x.owner.debt := by
  unfold stop
  split
  · exact ⟨rfl, rfl, Nat.le_refl _⟩
  · exact ⟨rfl, rfl, Nat.zero_le _⟩

/-- A thread of a list in which one was replaced. -/
theorem mem_or_read?_of_mem_set {l : List Worker} {i : Nat} {w w' : Worker} (hw : w'.read? = none)
    (hmem : w ∈ l.set i w') : w ∈ l ∨ w.read? = none := by
  rcases List.mem_or_eq_of_mem_set hmem with hmem | rfl
  · exact .inl hmem
  · exact .inr hw

/-- After a step of the owner a thread is as before or goes by nothing that it has read. -/
theorem mem_threads_of_proceeds {w : Worker} (h : Proceeds G K x y) (hw : w ∈ y.threads) :
    w ∈ x.threads ∨ w.read? = none := by
  cases h with
  | store _ | publish _ | pass _ | ask _ => exact .inl hw
  | spawn _ =>
    rcases List.mem_append.1 hw with hw | hw
    · exact .inl hw
    · rw [List.mem_singleton.1 hw]
      exact .inr rfl
  | join _ _ | bury _ _ => exact mem_or_read?_of_mem_set rfl hw

/-- After a step a thread is as before, goes by nothing that it has read, or has made the step. -/
theorem mem_threads_of_step {w : Worker} (hy : x.step G K e = some y) (hw : w ∈ y.threads) :
    w ∈ x.threads ∨ w.read? = none ∨ ∃ (i : Nat) (w₀ : Worker), x.threads[i]? = some w₀ ∧
      w₀.step G K x.shared = some (w, y.shared) := by
  cases e with
  | start v =>
    obtain ⟨-, rfl⟩ := of_step_start hy
    exact .inl ((x.starts v).keeps.2.1 ▸ hw)
  | update v =>
    obtain ⟨-, rfl⟩ := of_step_update hy
    exact .inl hw
  | stop =>
    obtain ⟨-, rfl⟩ := of_step_stop hy
    exact .inl (x.stop_keeps.2.1 ▸ hw)
  | proceed => exact (mem_threads_of_proceeds (proceeds hy) hw).imp_right .inl
  | refuse =>
    obtain ⟨s, -, rfl⟩ := of_step_refuse hy
    exact .inl hw
  | work i =>
    obtain ⟨w₀, w', m, hi, hstep, rfl⟩ := of_step_work hy
    rcases List.mem_or_eq_of_mem_set hw with hw | rfl
    · exact .inl hw
    · exact .inr (.inr ⟨i, w₀, hi, hstep⟩)
  | timeOut i =>
    obtain ⟨w₀, w', -, hstep, rfl⟩ := of_step_timeOut hy
    exact (mem_or_read?_of_mem_set (Worker.read?_of_timeOut hstep) hw).imp_right .inl

/-- What a step may make of the control when `n` views are told: the revision does not grow by more,
and whoever knows by an earlier revision still does. -/
structure Tells (n : Nat) (x y : Session γ σ) : Prop where
  revision_le : y.shared.control.revision.toNat + y.owner.debt ≤
    x.shared.control.revision.toNat + x.owner.debt + n
  knows : ∀ {v rev}, x.shared.control.Knows v rev → y.shared.control.Knows v rev

/-- Who does not store a view owes none afterwards. -/
theorem Tells.of_eq (hcontrol : y.shared.control = x.shared.control) (hdebt : y.owner.debt = 0) :
    Tells 0 x y where
  revision_le := by
    rw [hcontrol, hdebt]
    exact Nat.le_add_right _ _
  knows hknows := by
    rw [hcontrol]
    exact hknows

/-- An owner that goes on stores no view but the one it owes. -/
theorem tells_of_proceeds (h : Proceeds G K x y)
    (hlt : x.shared.control.revision.toNat + x.owner.debt < 2 ^ 64) : Tells 0 x y := by
  cases h with
  | @store s v ho =>
    rw [ho] at hlt
    have hbound : x.shared.control.revision.toNat + 1 < 2 ^ 64 := hlt
    refine ⟨?_, fun hknows => hknows.restart hbound v⟩
    rw [ho]
    exact (Control.toNat_revision_add_one hbound).le
  | @pass p v _ => exact .of_eq rfl (Owner.debt_ofPass v _)
  | publish _ | spawn _ | join _ _ | bury _ _ => exact .of_eq rfl rfl
  | ask _ =>
    exact ⟨Nat.add_le_add_left (Nat.zero_le _) _,
      fun hknows => ⟨hknows.revision_le, hknows.view_eq⟩⟩

/-- A view is told when the owner tells it or calls for a start, which stores it a step later. -/
theorem tells_of_step (hy : x.step G K e = some y)
    (hlt : x.shared.control.revision.toNat + x.owner.debt + e.tells.toNat < 2 ^ 64) :
    Tells e.tells.toNat x y := by
  cases e with
  | start v =>
    obtain ⟨-, rfl⟩ := of_step_start hy
    obtain ⟨hcontrol, -, hdebt⟩ := (x.starts (K := K) v).keeps
    refine ⟨?_, fun hknows => hcontrol ▸ hknows⟩
    rw [hcontrol]
    show _ ≤ _ + 1
    omega
  | update v =>
    obtain ⟨-, rfl⟩ := of_step_update hy
    have hbound : x.shared.control.revision.toNat + 1 < 2 ^ 64 := by
      have : x.shared.control.revision.toNat + x.owner.debt + 1 < 2 ^ 64 := hlt
      omega
    have hrev := Control.toNat_revision_tell_le hbound v
    refine ⟨?_, fun hknows => hknows.tell hbound v⟩
    show (x.shared.control.tell v).revision.toNat + x.owner.debt ≤ _ + 1
    omega
  | stop =>
    obtain ⟨-, rfl⟩ := of_step_stop hy
    obtain ⟨hshared, -, hdebt⟩ := x.stop_keeps
    refine ⟨?_, fun hknows => hshared ▸ hknows⟩
    rw [hshared]
    exact Nat.add_le_add_left hdebt _
  | proceed => exact tells_of_proceeds (proceeds hy) hlt
  | refuse =>
    obtain ⟨s, -, rfl⟩ := of_step_refuse hy
    exact .of_eq rfl rfl
  | work i =>
    obtain ⟨w, w', m, -, hstep, rfl⟩ := of_step_work hy
    have hcontrol : (x.put i w' m).shared.control = x.shared.control :=
      (Worker.goes (c := x.config) hstep).control_eq
    refine ⟨?_, fun hknows => hcontrol ▸ hknows⟩
    rw [hcontrol]
    exact Nat.le_refl _
  | timeOut i =>
    obtain ⟨w, w', -, -, rfl⟩ := of_step_timeOut hy
    exact ⟨Nat.le_refl _, id⟩

/-! ## Workers know whether their view is current -/

/-- After `told` views at most, every worker knows by its revision whether its view is current. -/
structure Attentive (told : Nat) (x : Session γ σ) : Prop where
  revision_le : x.shared.control.revision.toNat + x.owner.debt ≤ told
  knows : ∀ w ∈ x.threads, ∀ v rev, w.read? = some (v, rev) → x.shared.control.Knows v rev

/-- To a new session nothing was told, and it has no worker that could have missed it. -/
theorem attentive_new (c : Config) (g : γ) (k : σ) (s : Streamer) :
    Attentive 0 { config := c, shared := { generator := g, sink := k }, idle := some s } where
  revision_le := by
    show (0 : UInt64).toNat + 0 ≤ 0
    rw [UInt64.toNat_zero]
  knows _ hw := absurd hw List.not_mem_nil

/-- Whatever happens next, workers still know. -/
theorem Attentive.step {told : Nat} (h : x.Attentive told) (hlt : told + e.tells.toNat < 2 ^ 64)
    (hy : x.step G K e = some y) : y.Attentive (told + e.tells.toNat) := by
  have hle := h.revision_le
  obtain ⟨hrev, hkeep⟩ := tells_of_step hy (by omega)
  refine ⟨by omega, fun w hw v rev hread => ?_⟩
  rcases mem_threads_of_step hy hw with hw | hnone | ⟨i, w₀, hi, hstep⟩
  · exact hkeep (h.knows w hw v rev hread)
  · rw [hnone] at hread
    cases hread
  · rcases Worker.read?_of_step hstep with hnone | hsame | hnow
    · rw [hnone] at hread
      cases hread
    · exact hkeep (h.knows w₀ (List.mem_of_getElem? hi) v rev (hsame.symm.trans hread))
    · rw [hnow] at hread
      cases hread
      exact hkeep x.shared.control.knows_view

/-- Along a run with fewer views than a word can count, workers know. -/
theorem Attentive.run {told : Nat} {events : List Event} (h : x.Attentive told)
    (hlt : told + events.countP Event.tells < 2 ^ 64) (hy : x.run G K events = some y) :
    y.Attentive (told + events.countP Event.tells) := by
  induction events generalizing x told with
  | nil =>
    cases hy
    exact h
  | cons e rest ih =>
    have hcount : told + (e :: rest).countP Event.tells =
        told + e.tells.toNat + rest.countP Event.tells := by
      rw [List.countP_cons]
      cases e.tells with
      | true => simp only [if_true, Bool.toNat_true]; omega
      | false => simp only [Bool.false_eq_true, if_false, Bool.toNat_false]; omega
    rw [hcount] at hlt ⊢
    rw [Session.run] at hy
    split at hy
    · next z hz => exact ih (h.step (by omega) hz) hlt hy
    · cases hy

/-- A worker of the session is blocked with `s` after a pass under `v`: it sleeps, and nothing is
asked of it. -/
def Blocked (x : Session γ σ) (s : Streamer) (v : View) : Prop :=
  ∃ (i : Nat) (rev : UInt64), x.threads[i]? = some (.asleep s v rev) ∧ x.shared.control.isQuiet rev

/-- A worker that is blocked has made its pass for the view of the control. -/
theorem Attentive.view_eq {told : Nat} {s : Streamer} {v : View} (h : x.Attentive told)
    (hs : x.Blocked s v) : v = x.shared.control.view := by
  obtain ⟨i, rev, hi, hquiet⟩ := hs
  unfold Control.isQuiet at hquiet
  rw [Bool.and_eq_true, beq_iff_eq] at hquiet
  exact (h.knows _ (List.mem_of_getElem? hi) v rev rfl).view_eq hquiet.2.symm

end Session

/-! ## The view told last -/

/-- The control's view is this one, or the same. -/
def Control.Has (c : Control) (v : View) : Prop := c.view = v ∨ c.view.same v = true

/-- Whichever view is told, the control has it then. -/
theorem Control.has_tell (c : Control) (v : View) : (c.tell v).Has v := by
  unfold tell
  split
  · next hsame => exact .inr hsame
  · exact .inl rfl

namespace Session

/-- The view told last after an event before which it was `w`. A start that is refused tells
none. -/
def hears (x : Session γ σ) (w : View) : Event → View
  | .start v => if x.handle.isNone then v else w
  | .update v => v
  | .stop | .proceed | .refuse | .work _ | .timeOut _ => w

/-- The view told last along a run before which it was `w`. -/
def lastTold (G : Generator γ) (K : Sink σ) (x : Session γ σ) (w : View) : List Event → View
  | [] => w
  | e :: rest =>
    match x.step G K e with
    | some y => y.lastTold G K (x.hears w e) rest
    | none => w

/-- The view told last to a new session; before any is told it is the one that the control has. -/
def told (G : Generator γ) (K : Sink σ) (c : Config) (g : γ) (k : σ) (events : List Event) : View :=
  match ofConfig c g k with
  | .ok x => x.lastTold G K x.shared.control.view events
  | .error _ => {}

/-- The view told last is about to be stored, or the control has it. -/
structure Heeds (x : Session γ σ) (w : View) : Prop where
  stores : ∀ {s v}, x.owner = .storing s v → v = w
  has : x.owner.debt = 0 → x.shared.control.Has w

section
variable {x y : Session γ σ} {w : View} {e : Event} {s₀ : Streamer}

/-- Who stores no view leaves the one told last as it is. -/
theorem Heeds.of_eq (h : x.Heeds w) (hx : x.owner.debt = 0)
    (hcontrol : y.shared.control.view = x.shared.control.view) (hy : y.owner.debt = 0) :
    y.Heeds w where
  stores ho := by
    rw [ho] at hy
    cases hy
  has _ := by
    unfold Control.Has
    rw [hcontrol]
    exact h.has hx

/-- A start that is refused leaves the view told last as it is, and any other is about to store its
own. -/
theorem Heeds.start {v : View} (h : x.Heeds w) (hc : Streamer.ofConfig x.config = .ok s₀)
    (hy : Starts K x v y) : y.Heeds (x.hears w (.start v)) := by
  unfold hears
  cases hy with
  | refused hhandle =>
    rw [hhandle]
    exact h
  | taken hhandle _ | renewed hhandle _ _ =>
    rw [hhandle]
    refine ⟨fun ho => ?_, nofun⟩
    cases ho
    rfl
  | failed _ _ hfailed =>
    rw [hc] at hfailed
    cases hfailed

/-- An owner that goes on has the control hold the view that was told last. -/
theorem Heeds.proceed (h : x.Heeds w) (hy : Proceeds G K x y) : y.Heeds w := by
  cases hy with
  | store ho => exact ⟨nofun, fun _ => .inl (h.stores ho)⟩
  | @pass p v ho => exact h.of_eq (by rw [ho]; rfl) rfl (Owner.debt_ofPass v _)
  | publish ho | spawn ho | ask ho | join ho _ | bury ho _ =>
    exact h.of_eq (by rw [ho]; rfl) rfl rfl

/-- Whatever happens next, the control heeds the view that is told last then. -/
theorem Heeds.step (h : x.Heeds w) (hc : Streamer.ofConfig x.config = .ok s₀)
    (hy : x.step G K e = some y) : y.Heeds (x.hears w e) := by
  cases e with
  | start v =>
    obtain ⟨-, rfl⟩ := of_step_start hy
    exact h.start hc (x.starts v)
  | update v =>
    obtain ⟨ho, rfl⟩ := of_step_update hy
    refine ⟨fun hs => ?_, fun _ => Control.has_tell _ v⟩
    rw [ho] at hs
    cases hs
  | stop =>
    obtain ⟨ho, rfl⟩ := of_step_stop hy
    obtain ⟨hshared, -, hdebt⟩ := x.stop_keeps
    rw [ho] at hdebt
    exact h.of_eq (by rw [ho]; rfl) (by rw [hshared]) (Nat.le_zero.1 hdebt)
  | proceed => exact h.proceed (proceeds hy)
  | refuse =>
    obtain ⟨s, ho, rfl⟩ := of_step_refuse hy
    exact h.of_eq (by rw [ho]; rfl) rfl rfl
  | work i =>
    obtain ⟨w', w'', m, -, hstep, rfl⟩ := of_step_work hy
    have hcontrol : (x.put i w'' m).shared.control = x.shared.control :=
      (Worker.goes (c := x.config) hstep).control_eq
    exact ⟨h.stores, fun hdebt => hcontrol ▸ h.has hdebt⟩
  | timeOut i =>
    obtain ⟨w', w'', -, -, rfl⟩ := of_step_timeOut hy
    exact ⟨h.stores, h.has⟩

/-- Along a run the control heeds the view told last. -/
theorem Heeds.run {events : List Event} (h : x.Heeds w) (hx : x.Orderly)
    (hc : Streamer.ofConfig x.config = .ok s₀) (hy : x.run G K events = some y) :
    y.Heeds (x.lastTold G K w events) := by
  induction events generalizing x w with
  | nil =>
    cases hy
    exact h
  | cons e rest ih =>
    rw [Session.run] at hy
    split at hy
    · next z hz =>
      have hgoes := hx.step hc hz
      rw [lastTold, hz]
      exact ih (h.step hc hz) hgoes.orderly (hgoes.config_eq.symm ▸ hc) hy
    · cases hy

/-- After every run the control heeds the view told last. -/
theorem Reached.heeds {c : Config} {g : γ} {k : σ} {events : List Event}
    (h : x.Reached G K c g k events) : x.Heeds (told G K c g k events) := by
  obtain ⟨x₀, h₀, hrun⟩ := h
  rw [told, h₀]
  obtain ⟨s, hs, rfl⟩ := ofConfig_eq_ok h₀
  exact Heeds.run ⟨nofun, fun _ => .inl rfl⟩ (orderly_new c g k s) hs hrun

/-- While there is a worker no view is about to be stored. -/
theorem Orderly.debt_eq {i : Nat} (h : x.Orderly) (hi : x.worker? = some i) :
    x.owner.debt = 0 := by
  cases ho : x.owner with
  | storing s v =>
    have hnone := h.worker_eq_none (p := .resting s) (by rw [ho]; rfl)
    rw [hnone] at hi
    cases hi
  | free | passing _ _ | spawning _ | stopping _ | joining _ => rfl

end

end Session

/-! ## What a pass takes over -/

/-- What a pass under a view has taken over is all that the view shows. -/
def Pass.Fulfils (v : View) : Pass → Prop
  | .begun _ => True
  | .resolved _ next _ _ | .withdrawn next _ _ => next.inView v = .ok next.visible
  | .ended s _ => s.inView v = .ok s.visible

/-- A worker that has passed under a view has taken over all that the view shows. -/
def Worker.Fulfils : Worker → Prop
  | .passing p v _ => p.Fulfils v
  | .pausing s v _ | .asleep s v _ => s.inView v = .ok s.visible
  | .checking _ | .finished _ | .died | .joined => True

section
variable {t : Tree}

/-- A generator that never fails leaves out nothing. -/
theorem Pass.Fulfils.step {p p' : Pass} {v : View} {g g' : γ} {r r' : Retained}
    (h : p.Fulfils v) (ht : Tree.ofLevel c.rootLevel = .ok t) (hG : G.ServesTree t)
    (hp : (Place.passing v p).Mirrored c r)
    (hstep : p.step G Retained.sink v g r = (some p', g', r')) : p'.Fulfils v := by
  cases p with
  | begun s =>
    obtain ⟨nodes, hv⟩ := s.exists_inView v
    have hplanned := Streamer.plan_planned G g hv
    have hserves : s.Serves c := hp.1
    rw [Pass.step] at hstep
    rcases hplan : s.plan G v g with ⟨_ | s' | ⟨next, removed, added⟩, g₁⟩
    all_goals
      rw [hplan] at hstep hplanned
      cases hstep
    · cases hplanned with
      | same hsame =>
        rw [hsame] at hv
        exact hv
    · have hsucc := hplanned.succeeds hserves.sound
      have htree : s.tree = t := Except.ok.inj (hserves.tree_eq.symm.trans ht)
      have hall := hplanned.visible_eq hserves.sound hserves.maxLevel_eq hv (htree ▸ hG)
      show next.inView v = .ok next.visible
      rw [hall, ← hv, Streamer.inView, Streamer.inView, hsucc.tree_eq, hsucc.query_eq]
  | resolved old next removed added | withdrawn next removed added | ended s changed =>
    cases hstep
    exact h

/-- After a part of its pass, a worker has the view fulfilled if the pass is over and changed
nothing. -/
theorem Worker.fulfils_ofPass {p : Pass} {v : View} {m : Shared γ Retained} (h : p.Fulfils v)
    (ht : Tree.ofLevel c.rootLevel = .ok t) (hG : G.ServesTree t)
    (hp : (Place.passing v p).Mirrored c m.sink) (rev : UInt64) :
    (ofPass v rev (m.pass G Retained.sink v p).1).Fulfils := by
  rcases hstep : p.step G Retained.sink v m.generator m.sink with ⟨_ | p', g', r'⟩
  · rw [Shared.pass, hstep]
    trivial
  · rw [Shared.pass, hstep]
    exact h.step ht hG hp hstep

/-- A step of a worker keeps what its pass has fulfilled. -/
theorem Worker.Fulfils.step {w w' : Worker} {m m' : Shared γ Retained} (h : w.Fulfils)
    (ht : Tree.ofLevel c.rootLevel = .ok t) (hG : G.ServesTree t)
    (hw : w.place.Mirrored c m.sink) (hstep : w.step G Retained.sink m = some (w', m')) :
    w'.Fulfils := by
  cases w with
  | checking s =>
    rw [Worker.step] at hstep
    split at hstep
    · cases hstep
      trivial
    · cases hstep
      trivial
  | passing p v rev =>
    have hpass : p.Fulfils v := h
    cases p with
    | ended s changed =>
      cases hstep
      cases changed with
      | true => trivial
      | false => exact h
    | begun _ | resolved _ _ _ _ | withdrawn _ _ _ =>
      cases hstep
      exact fulfils_ofPass hpass ht hG hw rev
  | pausing s v rev | asleep s v rev =>
    cases hstep
    unfold doze wake
    split
    · exact h
    · split <;> trivial
  | finished _ | died | joined => cases hstep

/-- Threads that go by nothing that they have read have nothing to take over. -/
theorem Worker.fulfils_of_read? {w : Worker} (h : w.read? = none) : w.Fulfils := by
  cases w with
  | checking _ | finished _ | died | joined => trivial
  | passing _ _ _ | pausing _ _ _ | asleep _ _ _ => cases h

/-- If workers took over all that is in view, then after a step with a generator that never fails
they still have: only a worker that planned has something new to take over. -/
theorem Session.fulfils_of_step {x y : Session γ Retained} {e : Event}
    (h : ∀ w ∈ x.threads, w.Fulfils) (ht : Tree.ofLevel c.rootLevel = .ok t) (hG : G.ServesTree t)
    (horderly : x.Orderly) (hmirrored : x.course.Mirrored c)
    (hy : x.step G Retained.sink e = some y) : ∀ w ∈ y.threads, w.Fulfils := by
  intro w hw
  rcases mem_threads_of_step hy hw with hw | hnone | ⟨i, w₀, hi, hstep⟩
  · exact h w hw
  · exact Worker.fulfils_of_read? hnone
  · have hne := (Worker.goes (c := c) hstep).ne_joined
    have hplace := place_of_worker (horderly.worker_eq hi hne) hi
    unfold Course.Mirrored course at hmirrored
    rw [hplace] at hmirrored
    exact (h w₀ (List.mem_of_getElem? hi)).step ht hG hmirrored hstep

/-- Along every run with a generator that never fails, workers take over all that is in view. -/
theorem Session.Reached.fulfils {g : γ} {events : List Event} {x : Session γ Retained}
    (h : x.Reached G Retained.sink c g .empty events) (ht : Tree.ofLevel c.rootLevel = .ok t)
    (hG : G.ServesTree t) : ∀ w ∈ x.threads, w.Fulfils := by
  obtain ⟨x₀, h₀, hrun⟩ := h
  have hnone : ∀ w ∈ x₀.threads, w.Fulfils := by
    obtain ⟨s, -, rfl⟩ := ofConfig_eq_ok h₀
    exact fun w hw => nomatch hw
  have hboth : (∃ l, x.Reached G Retained.sink c g .empty l) ∧ ∀ w ∈ x.threads, w.Fulfils := by
    refine run_invariant (P := fun y => (∃ l, y.Reached G Retained.sink c g .empty l) ∧
      ∀ w ∈ y.threads, w.Fulfils) ⟨⟨[], x₀, h₀, rfl⟩, hnone⟩ hrun fun {a b e} ha hb => ?_
    obtain ⟨⟨l, hl⟩, hall⟩ := ha
    obtain ⟨horderly, -, hmirrored⟩ := hl.mirrored
    exact ⟨⟨_, hl.step hb⟩, fulfils_of_step hall ht hG horderly hmirrored hb⟩
  exact hboth.2

end

/-! ## A run in which a view is told late -/

/-- A view is told between the pass that a worker has just ended and its going to sleep. The worker
goes on under that view until it sleeps, wakes for no reason, and wakes as its time is over. -/
def Event.catchUp : List Event :=
  opening .close ++ [.work 0, .work 0, .update .back] ++ List.replicate 12 (.work 0) ++
    .timeOut 0 :: List.replicate 4 (.work 0)

/-- Whether the worker sleeps and nothing is asked of it. -/
def Worker.isBlocked (c : Control) : Worker → Bool
  | .asleep _ _ rev => c.isQuiet rev
  | .checking _ | .passing _ _ _ | .pausing _ _ _ | .finished _ | .died | .joined => false

namespace Session

/-- A session in which a worker is seen to be blocked has one. -/
theorem exists_blocked {x : Session γ σ}
    (h : x.threads.any (·.isBlocked x.shared.control) = true) : ∃ s v, x.Blocked s v := by
  obtain ⟨w, hw, hblocked⟩ := List.any_eq_true.1 h
  obtain ⟨i, hi⟩ := List.mem_iff_getElem?.1 hw
  cases w with
  | asleep s v rev => exact ⟨s, v, i, rev, hi, hblocked⟩
  | checking _ | passing _ _ _ | pausing _ _ _ | finished _ | died | joined => cases hblocked

/-- What is retained when the view is told, and what is when the worker sleeps for good. -/
theorem catchUp_eq :
    (history .blank Retained.sink .small () .empty Event.catchUp)[10]?.map
        (fun x => (x.shared.sink.nodes, x.shared.control.view,
          x.threads.any (·.isBlocked x.shared.control))) =
      some (Node.close, .back, false) ∧
    (history .blank Retained.sink .small () .empty Event.catchUp)[27]?.map
        (fun x => (x.shared.sink.nodes, x.shared.control.view,
          x.threads.any (·.isBlocked x.shared.control))) =
      some (Node.back, .back, true) ∧
    told .blank Retained.sink .small () .empty Event.catchUp = .back := by
  decide +kernel

end Session

/-! ## What a sleeping worker has seen -/

namespace Session

variable {events : List Event} {g : γ}

/-- A blocked worker has passed under the view that the control has, whatever the sink. -/
theorem Reached.view_eq {k : σ} {x : Session γ σ} {s : Streamer} {v : View}
    (h : x.Reached G K c g k events) (hn : events.countP Event.tells < 2 ^ 64)
    (hs : x.Blocked s v) : v = x.shared.control.view := by
  obtain ⟨x₀, h₀, hrun⟩ := h
  obtain ⟨s₀, -, rfl⟩ := ofConfig_eq_ok h₀
  exact ((attentive_new c g k s₀).run (by rw [Nat.zero_add]; exact hn) hrun).view_eq hs

/-- A blocked worker has brought all that its view shows into the retained set, if the generator
never fails. -/
theorem Reached.retains_inView {t : Tree} {x : Session γ Retained} {s : Streamer} {v : View}
    (h : x.Reached G Retained.sink c g .empty events) (ht : Tree.ofLevel c.rootLevel = .ok t)
    (hG : G.ServesTree t) (hs : x.Blocked s v) :
    ∃ nodes, t.query v.camera.position v.camera.frustum c.query = .ok nodes ∧
      ∀ n : Node, x.shared.sink.contains n.level n.origin ↔ n ∈ nodes := by
  obtain ⟨i, rev, hi, -⟩ := hs
  obtain ⟨horderly, -, hmirrored⟩ := h.mirrored
  have hplace : x.place = .resting s := place_of_worker (horderly.worker_eq hi nofun) hi
  unfold Course.Mirrored course at hmirrored
  rw [hplace] at hmirrored
  obtain ⟨hserves, hr⟩ := hmirrored
  have hview : s.inView v = .ok s.visible := h.fulfils ht hG _ (List.mem_of_getElem? hi)
  have htree : s.tree = t := Except.ok.inj (hserves.tree_eq.symm.trans ht)
  rw [Streamer.inView, htree, hserves.query_eq] at hview
  refine ⟨s.visible, hview, fun n => ?_⟩
  rw [Retained.contains_eq_isSome]
  exact hr.isSome_iff

/-- The view that the control has while a worker is blocked is the one told last, or the same. -/
theorem Reached.has_told {k : σ} {x : Session γ σ} {s : Streamer} {v : View}
    (h : x.Reached G K c g k events) (hs : x.Blocked s v) :
    x.shared.control.Has (told G K c g k events) := by
  obtain ⟨i, rev, hi, -⟩ := hs
  obtain ⟨s₀, -, hfollows⟩ := h.follows
  exact h.heeds.has (hfollows.orderly.debt_eq (hfollows.orderly.worker_eq hi nofun))

/-- As long as fewer views are told than a word can count, a blocked worker has passed under the
view that the control has, and this is the one told last, or the same, whatever the sink; and if the
generator never fails, the retained set is then the answer to the query of that view. -/
theorem sees_latest (hn : events.countP Event.tells < 2 ^ 64) :
    (∀ {σ : Type} {K : Sink σ} {k : σ} {x : Session γ σ} {s : Streamer} {v : View},
      x.Reached G K c g k events → x.Blocked s v →
        v = x.shared.control.view ∧ x.shared.control.Has (told G K c g k events)) ∧
    ∀ {t : Tree} {x : Session γ Retained} {s : Streamer} {v : View},
      Tree.ofLevel c.rootLevel = .ok t → G.ServesTree t →
      x.Reached G Retained.sink c g .empty events → x.Blocked s v →
      ∃ nodes, t.query x.shared.control.view.camera.position x.shared.control.view.camera.frustum
          c.query = .ok nodes ∧
        ∀ n : Node, x.shared.sink.contains n.level n.origin ↔ n ∈ nodes := by
  refine ⟨fun h hs => ⟨h.view_eq hn hs, h.has_told hs⟩, fun ht hG h hs => ?_⟩
  have hview := h.view_eq hn hs
  subst hview
  exact h.retains_inView ht hG hs

/-- The worker that was told of another view late has brought it into the retained set and
sleeps. -/
theorem sees_latest_back :
    ∃ (x y : Session Unit Retained) (s : Streamer) (t : Tree) (nodes : NodeSet),
      x.Reached .blank Retained.sink .small () .empty (Event.catchUp.take 10) ∧
      x.shared.sink.nodes = Node.close ∧ x.shared.control.view = .back ∧
      y.Reached .blank Retained.sink .small () .empty Event.catchUp ∧ y.Blocked s .back ∧
      y.shared.control.Has .back ∧ Tree.ofLevel 2 = .ok t ∧
      t.query View.back.camera.position View.back.camera.frustum Config.small.query = .ok nodes ∧
      y.shared.sink.nodes = Node.back ∧
      ∀ n : Node, y.shared.sink.contains n.level n.origin ↔ n ∈ nodes := by
  obtain ⟨htold, hcaught, hlast⟩ := catchUp_eq
  obtain ⟨x, hx, hxseen⟩ := Option.map_eq_some_iff.1 htold
  obtain ⟨y, hy, hyseen⟩ := Option.map_eq_some_iff.1 hcaught
  simp only [Prod.mk.injEq] at hxseen hyseen
  obtain ⟨hretained, hback, hawake⟩ := hyseen
  have hreached : y.Reached .blank Retained.sink .small () .empty Event.catchUp :=
    (getElem?_history.1 hy).2
  obtain ⟨s, v, hblocked⟩ := exists_blocked hawake
  obtain ⟨t, ht⟩ : ∃ t, Tree.ofLevel 2 = .ok t := ⟨_, rfl⟩
  have hlt : Event.catchUp.countP Event.tells < 2 ^ 64 := by decide
  have hblank : Generator.blank.ServesTree t := fun n _ g => ⟨_, g, rfl, rfl⟩
  obtain ⟨hview, hhas⟩ := (sees_latest hlt).1 hreached hblocked
  obtain ⟨nodes, hnodes, hmem⟩ := (sees_latest hlt).2 ht hblank hreached hblocked
  rw [hback] at hview hnodes
  rw [hview] at hblocked
  rw [hlast] at hhas
  exact ⟨x, y, s, t, nodes, (getElem?_history.1 hx).2, hxseen.1, hxseen.2.1, hreached, hblocked,
    hhas, ht, hnodes, hretained, hmem⟩

end Session

/-- After whatever calls, as long as there is a worker, the retained set of a world is the answer to
the query of the view told last, if the generator never fails. -/
theorem World.sink_answers {g : γ} {w : World γ Retained} {t : Tree}
    (h : World.ofConfig c g .empty = .ok w) (ht : Tree.ofLevel c.rootLevel = .ok t)
    (hG : G.ServesTree t) (l : List Call) {s : Streamer}
    (hs : (w.calls G Retained.sink l).lifecycle = .running s) :
    ∃ nodes, t.query (w.calls G Retained.sink l).view.camera.position
        (w.calls G Retained.sink l).view.camera.frustum c.query = .ok nodes ∧
      ∀ n : Node, (w.calls G Retained.sink l).sink.contains n.level n.origin ↔ n ∈ nodes := by
  obtain ⟨events, x, hx, hdepicts⟩ := Session.exists_calls (G := G) (K := Retained.sink) h l
  have hat := hdepicts.lifecycle
  rw [hs] at hat
  obtain ⟨-, i, -, hi, hstop⟩ := hat
  have hquiet : x.shared.control.isQuiet x.shared.control.revision := by
    unfold Control.isQuiet
    rw [hstop, beq_self_eq_true]
    rfl
  rw [← hdepicts.view_eq, ← hdepicts.sink_eq]
  exact hx.retains_inView ht hG ⟨i, _, hi, hquiet⟩

end VoxelStream
