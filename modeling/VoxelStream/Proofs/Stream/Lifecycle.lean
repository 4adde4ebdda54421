import VoxelStream.Proofs.Stream.Attention

/-!
# The life of a worker

A world has at most one worker, and a stop is the end of it. The owner asks for the stop by a flag,
which the worker reads at the head of its loop and whenever it wakes; so once the flag is set no
pass is begun any more and only the one that is under way, if any, comes to its end
(`Session.Asked.run`). The flag is taken back by a start alone, and by then there is no thread left
that could read it. When the stop is over nobody touches the sink or the figures until the next
start (`Session.Stopped.run`).

`Session.lifecycle` puts together what holds of every session, however the threads take turns.
-/

namespace VoxelStream

variable {γ σ : Type} {G : Generator γ} {K : Sink σ}

/-- A view that is told takes back no stop. -/
theorem Control.stop_tell (c : Control) (v : View) : (c.tell v).stop = c.stop := by
  unfold tell
  split
  · rfl
  · rfl

namespace Owner

/-- An owner between two parts of a pass waits for no thread. -/
theorem ofPass_ne_joining (v : View) (o : Option Pass) (i : Nat) : ofPass v o ≠ .joining i := by
  cases o with
  | none => exact nofun
  | some p => exact nofun

/-- Who owes a view is about to store one. -/
theorem exists_storing {o : Owner} (h : o.debt ≠ 0) : ∃ s v, o = .storing s v := by
  cases o with
  | storing s v => exact ⟨s, v, rfl⟩
  | free | passing _ _ | spawning _ | stopping _ | joining _ => exact absurd rfl h

end Owner

/-- Whether the event is a call for a start. -/
def Event.isStart : Event → Bool
  | .start _ => true
  | .update _ | .stop | .proceed | .refuse | .work _ | .timeOut _ => false

/-! ## Passes of workers -/

namespace Worker

/-- Whether the worker is in a pass. -/
def isPassing : Worker → Bool
  | .passing _ _ _ => true
  | .checking _ | .pausing _ _ _ | .asleep _ _ _ | .finished _ | .died | .joined => false

/-- A worker that wakes is in no pass. -/
theorem isPassing_wake (s : Streamer) (c : Control) : (wake s c).isPassing = false := by
  unfold wake
  split <;> rfl

/-- A worker that may have to doze is in no pass. -/
theorem isPassing_doze (s : Streamer) (v : View) (rev : UInt64) (c : Control) :
    (doze s v rev c).isPassing = false := by
  unfold doze
  split
  · rfl
  · exact isPassing_wake s c

/-- A worker that is asked to stop begins no pass. -/
theorem isPassing_of_step {w w' : Worker} {m m' : Shared γ σ} (hstop : m.control.stop = true)
    (h : w.step G K m = some (w', m')) (hpass : w'.isPassing = true) : w.isPassing = true := by
  cases w with
  | checking s =>
    rw [step, if_pos hstop] at h
    cases h
    cases hpass
  | passing _ _ _ => rfl
  | pausing s v rev | asleep s v rev =>
    cases h
    rw [isPassing_doze] at hpass
    cases hpass
  | finished _ | died | joined => cases h

/-- A worker whose time is over is in no pass. -/
theorem isPassing_of_timeOut {w w' : Worker} {c : Control} (h : w.timeOut c = some w') :
    w'.isPassing = false := by
  cases w with
  | asleep s v rev =>
    cases h
    exact isPassing_wake s c
  | checking _ | passing _ _ _ | pausing _ _ _ | finished _ | died | joined => cases h

/-- Of threads one of which goes on, no more are in a pass if that one is not newly in one. -/
theorem countP_isPassing_set_le {l : List Worker} {i : Nat} {w w' : Worker} (hw : l[i]? = some w)
    (h : w'.isPassing = true → w.isPassing = true) :
    (l.set i w').countP isPassing ≤ l.countP isPassing := by
  obtain ⟨hlt, rfl⟩ := List.getElem?_eq_some_iff.1 hw
  rw [List.countP_set hlt]
  cases hpass : w'.isPassing with
  | true =>
    have hold : 0 < l.countP isPassing := List.countP_pos_iff.2 ⟨_, List.getElem_mem hlt, h hpass⟩
    rw [h hpass]
    simp only [if_true]
    omega
  | false =>
    simp only [Bool.false_eq_true, if_false]
    omega

end Worker

namespace Session

/-- How many workers are in a pass. -/
def passes (x : Session γ σ) : Nat := x.threads.countP Worker.isPassing

/-- From one moment to the next a worker has begun a pass. -/
def enters (x y : Session γ σ) : Bool := x.passes < y.passes

/-- From one moment to the next a worker has come to the end of a pass. -/
def leaves (x y : Session γ σ) : Bool := y.passes < x.passes

/-- How many steps of a run are such as `p` says. -/
def countSteps (G : Generator γ) (K : Sink σ) (p : Session γ σ → Session γ σ → Bool)
    (x : Session γ σ) : List Event → Nat
  | [] => 0
  | e :: rest =>
    match x.step G K e with
    | some y => (p x y).toNat + y.countSteps G K p rest
    | none => 0

section
variable {x y : Session γ σ} {e : Event} {l : List Event} {i : Nat} {s₀ : Streamer}

/-- Without a worker all threads there were are gone. -/
theorem Orderly.eq_joined (h : x.Orderly) (hnone : x.worker? = none) :
    ∀ w ∈ x.threads, w = .joined := by
  intro w hw
  obtain ⟨i, hi⟩ := List.mem_iff_getElem?.1 hw
  refine (h.joined_iff hi).2 ?_
  rw [hnone]
  exact (Option.some_ne_none i).symm

/-- At most one worker is in a pass. -/
theorem Orderly.passes_le_one (h : x.Orderly) : x.passes ≤ 1 := by
  cases hi : x.worker? with
  | none =>
    have hzero : x.passes = 0 := by
      refine List.countP_eq_zero.2 fun w hw => ?_
      rw [h.eq_joined hi w hw]
      exact Bool.false_ne_true
    omega
  | some i =>
    have hlt := h.worker_lt hi
    -- Without the worker there are only threads that are joined.
    have hothers : (x.threads.set i .joined).countP Worker.isPassing = 0 := by
      refine List.countP_eq_zero.2 fun w hw => ?_
      obtain ⟨j, hj⟩ := List.mem_iff_getElem?.1 hw
      by_cases hij : i = j
      · subst hij
        rw [List.getElem?_set_self hlt, Option.some.injEq] at hj
        rw [← hj]
        exact Bool.false_ne_true
      · rw [List.getElem?_set_ne hij] at hj
        obtain rfl : w = .joined :=
          (h.joined_iff hj).2 (by rw [hi]; exact fun he => hij (Option.some.inj he))
        exact Bool.false_ne_true
    have hset := List.countP_set (p := Worker.isPassing) (a := .joined) hlt
    rw [hothers] at hset
    unfold passes
    split at hset <;> omega

/-! ## A worker that is asked to stop -/

/-- The worker has been asked to stop, and no start is about to take that back. -/
structure Asked (x : Session γ σ) : Prop where
  stop_eq : x.shared.control.stop = true
  debt_eq : x.owner.debt = 0

/-- An owner that goes on with its stop leaves the worker asked, and has none begin a pass. -/
theorem Asked.proceed (h : x.Asked) (hy : Proceeds G K x y) : y.Asked ∧ y.passes ≤ x.passes := by
  obtain ⟨hstop, hdebt⟩ := h
  cases hy with
  | store ho =>
    rw [ho] at hdebt
    cases hdebt
  | @pass p v _ => exact ⟨⟨hstop, Owner.debt_ofPass v _⟩, Nat.le_refl _⟩
  | publish _ => exact ⟨⟨hstop, rfl⟩, Nat.le_refl _⟩
  | spawn _ =>
    refine ⟨⟨hstop, rfl⟩, ?_⟩
    unfold passes
    rw [List.countP_append]
    exact Nat.le_refl _
  | ask _ => exact ⟨⟨rfl, rfl⟩, Nat.le_refl _⟩
  | join _ hw | bury _ hw => exact ⟨⟨hstop, rfl⟩, Worker.countP_isPassing_set_le hw nofun⟩

/-- Until the next start the worker stays asked to stop, and it begins no pass. -/
theorem Asked.step (h : x.Asked) (he : e.isStart = false) (hy : x.step G K e = some y) :
    y.Asked ∧ y.passes ≤ x.passes := by
  cases e with
  | start v => cases he
  | update v =>
    obtain ⟨-, rfl⟩ := of_step_update hy
    exact ⟨⟨(Control.stop_tell _ v).trans h.stop_eq, h.debt_eq⟩, Nat.le_refl _⟩
  | stop =>
    obtain ⟨ho, rfl⟩ := of_step_stop hy
    unfold Session.stop
    split
    · exact ⟨h, Nat.le_refl _⟩
    · exact ⟨⟨h.stop_eq, rfl⟩, Nat.le_refl _⟩
  | proceed => exact h.proceed (proceeds hy)
  | refuse =>
    obtain ⟨s, -, rfl⟩ := of_step_refuse hy
    exact ⟨⟨h.stop_eq, rfl⟩, Nat.le_refl _⟩
  | work i =>
    obtain ⟨w, w', m, hw, hstep, rfl⟩ := of_step_work hy
    have hcontrol := (Worker.goes (c := x.config) hstep).control_eq
    have hstop : m.control.stop = true := hcontrol ▸ h.stop_eq
    exact ⟨⟨hstop, h.debt_eq⟩,
      Worker.countP_isPassing_set_le hw (Worker.isPassing_of_step h.stop_eq hstep)⟩
  | timeOut i =>
    obtain ⟨w, w', hw, hstep, rfl⟩ := of_step_timeOut hy
    refine ⟨⟨h.stop_eq, h.debt_eq⟩, Worker.countP_isPassing_set_le hw fun hpass => ?_⟩
    rw [Worker.isPassing_of_timeOut hstep] at hpass
    cases hpass

/-- Until the next start no pass is begun, and only passes that are under way come to an end. -/
theorem Asked.run (h : x.Asked) (hl : ∀ e ∈ l, e.isStart = false) (hy : x.run G K l = some y) :
    x.countSteps G K enters l = 0 ∧ x.countSteps G K leaves l + y.passes ≤ x.passes := by
  induction l generalizing x with
  | nil =>
    cases hy
    exact ⟨rfl, (Nat.zero_add _).le⟩
  | cons e rest ih =>
    rw [Session.run] at hy
    split at hy
    · next z hz =>
      obtain ⟨hasked, hle⟩ := h.step (hl e List.mem_cons_self) hz
      obtain ⟨henters, hleaves⟩ := ih hasked (fun e he => hl e (List.mem_cons_of_mem _ he)) hy
      have hfirst : x.enters z = false := decide_eq_false (by omega)
      rw [countSteps, countSteps, hz]
      dsimp only
      rw [henters, hfirst]
      refine ⟨rfl, ?_⟩
      cases hlt : x.leaves z with
      | true =>
        have hless : z.passes < x.passes := of_decide_eq_true hlt
        rw [Bool.toNat_true]
        omega
      | false =>
        rw [Bool.toNat_false]
        omega
    · cases hy

/-! ## A session that is stopped -/

/-- The owner is in no call, and all threads there were are gone. -/
structure Stopped (x : Session γ σ) : Prop where
  owner_eq : x.owner = .free
  handle_eq : x.handle = none
  joined : ∀ w ∈ x.threads, w = .joined

/-- Without a handle and a call there is no worker. -/
theorem Orderly.stopped (h : x.Orderly) (howner : x.owner = .free) (hhandle : x.handle = none) :
    x.Stopped := by
  have hnone : x.worker? = none := by
    rw [worker?, howner]
    exact hhandle
  exact ⟨howner, hhandle, h.eq_joined hnone⟩

/-- Until the next start all that happens to a session that is stopped is that views are told. -/
theorem Stopped.step (h : x.Stopped) (he : e.isStart = false) (hy : x.step G K e = some y) :
    ∃ control, y = { x with shared.control := control } := by
  cases e with
  | start v => cases he
  | update v =>
    obtain ⟨-, rfl⟩ := of_step_update hy
    exact ⟨_, rfl⟩
  | stop =>
    obtain ⟨-, rfl⟩ := of_step_stop hy
    have hsame : x.stop = x := by rw [Session.stop, h.handle_eq]
    exact ⟨x.shared.control, hsame⟩
  | proceed =>
    have hnone : x.proceed G K = none := by rw [Session.proceed, h.owner_eq]
    rw [Session.step, hnone] at hy
    cases hy
  | refuse =>
    obtain ⟨s, ho, -⟩ := of_step_refuse hy
    rw [h.owner_eq] at ho
    cases ho
  | work i =>
    obtain ⟨w, w', m, hw, hstep, -⟩ := of_step_work hy
    rw [h.joined w (List.mem_of_getElem? hw)] at hstep
    cases hstep
  | timeOut i =>
    obtain ⟨w, w', hw, hstep, -⟩ := of_step_timeOut hy
    rw [h.joined w (List.mem_of_getElem? hw)] at hstep
    cases hstep

/-- Without a start, a session that has stopped changes in its control alone. -/
theorem Stopped.run (h : x.Stopped) (hl : ∀ e ∈ l, e.isStart = false) (hy : x.run G K l = some y) :
    ∃ control, y = { x with shared.control := control } := by
  induction l generalizing x with
  | nil =>
    cases hy
    exact ⟨_, rfl⟩
  | cons e rest ih =>
    rw [Session.run] at hy
    split at hy
    · next z hz =>
      obtain ⟨control, rfl⟩ := h.step (hl e List.mem_cons_self) hz
      have hz : Stopped { x with shared.control := control } :=
        ⟨h.owner_eq, h.handle_eq, h.joined⟩
      obtain ⟨control', rfl⟩ := ih hz (fun e he => hl e (List.mem_cons_of_mem _ he)) hy
      exact ⟨control', rfl⟩
    · cases hy

/-! ## The flag -/

/-- The flag is taken back by a start that stores its view, and by nothing else. -/
theorem exists_storing_of_step (hy : x.step G K e = some y) (hstop : x.shared.control.stop = true)
    (htaken : y.shared.control.stop = false) : ∃ s v, x.owner = .storing s v := by
  refine Owner.exists_storing fun hdebt => ?_
  have hasked : x.Asked := ⟨hstop, hdebt⟩
  cases e with
  | start v =>
    obtain ⟨-, rfl⟩ := of_step_start hy
    rw [(x.starts v).keeps.1, hstop] at htaken
    cases htaken
  | update _ | stop | proceed | refuse | work _ | timeOut _ =>
    rw [(hasked.step rfl hy).1.stop_eq] at htaken
    cases htaken

/-- The begin of a start is over at once, or the owner has a view to store. -/
theorem Starts.owner_eq {v : View} (h : Starts K x v y) :
    y.owner = x.owner ∨ ∃ s, y.owner = .storing s v := by
  cases h with
  | refused _ | failed _ _ _ => exact .inl rfl
  | taken _ _ | renewed _ _ _ => exact .inr ⟨_, rfl⟩

/-- The owner waits for no thread that it has not asked to stop. -/
def AsksFirst (x : Session γ σ) : Prop := ∀ i, x.owner = .joining i → x.shared.control.stop = true

/-- Whatever happens next, the owner asks before it waits. -/
theorem AsksFirst.step (h : x.AsksFirst) (hy : x.step G K e = some y) : y.AsksFirst := by
  intro i hi
  cases e with
  | start v =>
    obtain ⟨ho, rfl⟩ := of_step_start hy
    rcases (x.starts (K := K) v).owner_eq with hsame | ⟨s, hs⟩
    · rw [hsame, ho] at hi
      cases hi
    · rw [hs] at hi
      cases hi
  | update v =>
    obtain ⟨ho, rfl⟩ := of_step_update hy
    rw [ho] at hi
    cases hi
  | stop =>
    obtain ⟨ho, rfl⟩ := of_step_stop hy
    unfold stop at hi
    split at hi
    · rw [ho] at hi
      cases hi
    · cases hi
  | proceed =>
    cases proceeds hy with
    | @pass p v _ => exact absurd hi (Owner.ofPass_ne_joining v _ i)
    | ask _ => rfl
    | store _ | publish _ | spawn _ | join _ _ | bury _ _ => cases hi
  | refuse =>
    obtain ⟨s, -, rfl⟩ := of_step_refuse hy
    cases hi
  | work j =>
    obtain ⟨w, w', m, -, hstep, rfl⟩ := of_step_work hy
    rw [← h i hi]
    exact congrArg _ (Worker.goes (c := x.config) hstep).control_eq
  | timeOut j =>
    obtain ⟨w, w', -, -, rfl⟩ := of_step_timeOut hy
    exact h i hi

/-- In every session that was reached, whom the owner waits for has been asked to stop. -/
theorem Reached.asked {c : Config} {g : γ} {k : σ} {events : List Event}
    (h : x.Reached G K c g k events) (hi : x.owner = .joining i) : x.Asked := by
  obtain ⟨x₀, h₀, hrun⟩ := h
  have hfirst : x₀.AsksFirst := by
    obtain ⟨s, -, rfl⟩ := ofConfig_eq_ok h₀
    exact nofun
  exact ⟨run_invariant hfirst hrun AsksFirst.step i hi, by rw [hi]; rfl⟩

/-- When the owner has waited, the session is stopped. -/
theorem Orderly.stopped_of_join (h : x.Orderly) (hi : x.owner = .joining i)
    (hx : Streamer.ofConfig x.config = .ok s₀) (hy : x.step G K .proceed = some y) : y.Stopped := by
  have horderly := (h.step hx hy).orderly
  have hhandle : x.handle = none := h.handle_eq (by rw [hi]; exact nofun)
  cases proceeds hy with
  | join _ _ | bury _ _ => exact horderly.stopped rfl hhandle
  | store ho | pass ho | publish ho | spawn ho | ask ho =>
    rw [hi] at ho
    cases ho

end

end Session

/-! ## The life of a worker -/

/-- A start of a world that has a worker is refused and changes nothing. -/
theorem World.start_of_isRunning {w : World γ σ} (h : w.isRunning = true) (v : View) :
    w.start G K v = (.error (.stream .alreadyRunning), w) := by
  obtain ⟨config, view, stats, lifecycle, g, k⟩ := w
  cases lifecycle with
  | stopped s | lost => cases h
  | running s | dead => rfl

/-- A stop of a world that has no worker changes nothing. -/
theorem World.stop_of_not_isRunning {w : World γ σ} (h : w.isRunning = false) : w.stop = w := by
  obtain ⟨config, view, stats, lifecycle, g, k⟩ := w
  cases lifecycle with
  | stopped s | lost => rfl
  | running s | dead => cases h

namespace Session

/-- What holds of a session at every moment, whatever has happened and whatever may happen. A thread
is joined only after it has ended, so workers that are alive are among the threads not joined. -/
structure WellRun (G : Generator γ) (K : Sink σ) (x : Session γ σ) : Prop where
  one_worker : ∀ {i j : Nat} {w w' : Worker}, x.threads[i]? = some w → x.threads[j]? = some w' →
    w ≠ .joined → w' ≠ .joined → i = j
  idle_or_handle : x.idle = none ∨ x.handle = none
  /-- Only when all threads are gone is the flag taken back. -/
  keeps_flag : ∀ {e : Event} {y : Session γ σ}, x.step G K e = some y →
    x.shared.control.stop = true → y.shared.control.stop = false → ∀ w ∈ x.threads, w = .joined
  start_refused : ∀ v, x.handle ≠ none →
    x.takeStreamer K = (.error .alreadyRunning, x) ∧ x.step G K (.start v) = some x
  stop_ignored : x.owner = .free → x.handle = none → x.step G K .stop = some x
  /-- Once a worker is asked to stop it begins no pass, and at most the one under way is done. -/
  winds_up : ∀ {i : Nat}, x.owner = .joining i → x.shared.control.stop = true ∧ x.passes ≤ 1 ∧
    ∀ {l : List Event} {y : Session γ σ}, (∀ e ∈ l, e.isStart = false) → x.run G K l = some y →
      x.countSteps G K enters l = 0 ∧ x.countSteps G K leaves l ≤ x.passes
  /-- A stop is over with the owner in no call and without a handle. -/
  returns : ∀ {i : Nat} {y : Session γ σ}, x.owner = .joining i →
    x.step G K .proceed = some y → y.owner = .free ∧ y.handle = none
  /-- Until the next start a stopped session leaves the sink and the figures alone. -/
  rests : x.owner = .free → x.handle = none → ∀ {l : List Event} {y : Session γ σ},
    (∀ e ∈ l, e.isStart = false) → x.run G K l = some y →
      y.shared.sink = x.shared.sink ∧ y.shared.stats = x.shared.stats

variable {c : Config} {g : γ} {k : σ} {events : List Event} {x : Session γ σ}

/-- However the threads take turns, there is one worker at most, it is asked to stop for good, and
a stop is the end of it. A world says of a start that it is refused while there is a worker. -/
theorem lifecycle (h : x.Reached G K c g k events) : x.WellRun G K ∧ ∀ w : World γ σ,
    (w.isRunning = true → ∀ v, w.start G K v = (.error (.stream .alreadyRunning), w)) ∧
      (w.isRunning = false → w.stop = w) := by
  obtain ⟨s₀, hs₀, hfollows⟩ := h.follows
  have horderly := hfollows.orderly
  have hconfig : Streamer.ofConfig x.config = .ok s₀ := hfollows.config_eq ▸ hs₀
  have hfree : x.handle ≠ none → x.owner = .free := fun hhandle => by
    by_contra howner
    exact hhandle (horderly.handle_eq howner)
  refine ⟨⟨fun hi hj hw hw' => ?_, ?_, fun hy hstop htaken => ?_, fun v hhandle => ?_,
    fun howner hhandle => ?_, fun hi => ?_, fun hi hy => ?_, fun howner hhandle {l y} hl hy => ?_⟩,
    fun w => ⟨World.start_of_isRunning, World.stop_of_not_isRunning⟩⟩
  · exact Option.some.inj ((horderly.worker_eq hi hw).symm.trans (horderly.worker_eq hj hw'))
  · by_cases hhandle : x.handle = none
    · exact .inr hhandle
    · exact .inl (horderly.idle_eq (.inr hhandle))
  · obtain ⟨s, v, ho⟩ := exists_storing_of_step hy hstop htaken
    have hplace : x.owner.place? = some (.resting s) := by
      rw [ho]
      rfl
    exact horderly.eq_joined (horderly.worker_eq_none hplace)
  · obtain ⟨i, hi⟩ := Option.ne_none_iff_exists'.1 hhandle
    have htake : x.takeStreamer K = (.error .alreadyRunning, x) := by rw [takeStreamer, hi]
    refine ⟨htake, ?_⟩
    unfold step
    rw [hfree hhandle]
    dsimp only
    rw [start, htake]
  · unfold step
    rw [howner]
    dsimp only
    rw [stop, hhandle]
  · have hasked := h.asked hi
    refine ⟨hasked.stop_eq, horderly.passes_le_one, fun hl hy => ?_⟩
    obtain ⟨henters, hleaves⟩ := hasked.run hl hy
    exact ⟨henters, by omega⟩
  · have hstopped := horderly.stopped_of_join hi hconfig hy
    exact ⟨hstopped.owner_eq, hstopped.handle_eq⟩
  · obtain ⟨control, rfl⟩ := (horderly.stopped howner hhandle).run hl hy
    exact ⟨rfl, rfl⟩

/-- The worker that sleeps lets no second one start. Asked to stop in the middle of a pass it goes on
to the end of that, which puts other chunks into the retained set, and begins no further one; after
that a view and a stop change neither the retained set nor the figures. -/
theorem lifecycle_tour : ∃ w x y z : Session Nat Retained,
    w.Reached .erratic Retained.sink .small 0 .empty (Event.tour.take 16) ∧ w.handle = some 0 ∧
    w.step .erratic Retained.sink (.start .away) = some w ∧
    x.Reached .erratic Retained.sink .small 0 .empty (Event.tour.take 22) ∧
    x.owner = .joining 0 ∧ x.shared.sink.nodes = Node.close ∧
    x.run .erratic Retained.sink (List.replicate 4 (.work 0) ++ [.proceed]) = some y ∧
    x.countSteps .erratic Retained.sink enters (List.replicate 4 (.work 0) ++ [.proceed]) = 0 ∧
    x.countSteps .erratic Retained.sink leaves (List.replicate 4 (.work 0) ++ [.proceed]) ≤ 1 ∧
    y.owner = .free ∧ y.handle = none ∧ y.shared.sink.nodes = Node.back ∧
    y.shared.stats = Glimpse.stopped.stats ∧
    y.run .erratic Retained.sink [.update .away, .stop] = some z ∧
    z.shared.sink = y.shared.sink ∧ z.shared.stats = y.shared.stats := by
  obtain ⟨w, hw, hasleep⟩ := exists_reached (i := 16) (v := .asleep) (by simp [Glimpse.tour])
  obtain ⟨x, hx, hawaited⟩ := exists_reached (i := 22) (v := .awaited) (by simp [Glimpse.tour])
  obtain ⟨y, hy, hstopped⟩ := exists_reached (i := 27) (v := .stopped) (by simp [Glimpse.tour])
  have hhandle : w.handle = some 0 := congrArg Glimpse.handle hasleep
  have hjoins : x.owner = .joining 0 :=
    Owner.joins?_eq_some_iff.1 (congrArg Glimpse.joins hawaited)
  have hfree : y.owner = .free := Owner.isFree_iff.1 (congrArg Glimpse.isFree hstopped)
  have hnone : y.handle = none := congrArg Glimpse.handle hstopped
  have hrun : x.run .erratic Retained.sink (List.replicate 4 (.work 0) ++ [.proceed]) = some y := by
    have hsplit : Event.tour.take 27 =
        Event.tour.take 22 ++ (List.replicate 4 (.work 0) ++ [.proceed]) := rfl
    rw [hsplit] at hy
    obtain ⟨x', hx', hrun⟩ := hy.of_append
    rwa [hx'.unique hx] at hrun
  obtain ⟨-, hpasses, hwinds⟩ := (lifecycle hx).1.winds_up hjoins
  obtain ⟨henters, hleaves⟩ := hwinds (by decide) hrun
  have hupdate : y.step .erratic Retained.sink (.update .away) =
      some { y with shared.control := y.shared.control.tell .away } := by
    unfold step
    rw [hfree]
  have hstop : y.run .erratic Retained.sink [.update .away, .stop] =
      some { y with shared.control := y.shared.control.tell .away } := by
    refine run_of_step hupdate ?_
    rw [run_singleton]
    exact (lifecycle (hy.step hupdate)).1.stop_ignored hfree hnone
  have hrests := (lifecycle hy).1.rests hfree hnone (by decide) hstop
  exact ⟨w, x, y, _, hw, hhandle,
    ((lifecycle hw).1.start_refused .away (hhandle ▸ Option.some_ne_none 0)).2, hx, hjoins,
    congrArg Glimpse.retained hawaited, hrun, henters, hleaves.trans hpasses, hfree, hnone,
    congrArg Glimpse.retained hstopped, congrArg Glimpse.stats hstopped, hstop, hrests⟩

end Session
end VoxelStream
