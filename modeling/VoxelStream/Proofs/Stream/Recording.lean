import VoxelStream.Proofs.Render.Flat
import VoxelStream.Proofs.Store.Record
import VoxelStream.Proofs.Stream.Handover

/-!
# Sessions that are recorded

A generator or a sink that writes down its calls does the same for its caller as one that does not.
So a session with it takes the same steps, and every run of a session is that of a session whose
calls are recorded, with the records left out (`Session.Recorded.reached_erase_iff`). What is shown
of the calls in recorded sessions is therefore shown of the calls of all sessions.

The argument knows nothing of records: it is that of any generator and any sink that have a state
behind which another one can be seen (`Generator.Refines`, `Sink.Refines`).
-/

namespace VoxelStream

variable {γ γ' σ σ' : Type} {G : Generator γ} {G' : Generator γ'} {K : Sink σ} {K' : Sink σ'}
  {f : γ' → γ} {q : σ' → σ}

/-- The sink does to what `q` shows of its state what `K` does. -/
structure Sink.Refines (K' : Sink σ') (K : Sink σ) (q : σ' → σ) : Prop where
  add_eq : ∀ chunks k, K.add chunks (q k) = ((K'.add chunks k).1, q (K'.add chunks k).2)
  remove_eq : ∀ chunks k, K.remove chunks (q k) = ((K'.remove chunks k).1, q (K'.remove chunks k).2)
  clear_eq : ∀ k, K.clear (q k) = q (K'.clear k)

/-! ## Passes -/

namespace Generator.Refines

/-- Resolving a list of nodes gives the same outcome, and what shows of the generator goes along. -/
theorem resolve (h : G'.Refines G f) (r : Resolution) (l : List Node) (g : γ') :
    r.resolve G l (f g) = ((r.resolve G' l g).1, f (r.resolve G' l g).2) := by
  induction l generalizing r g with
  | nil => rfl
  | cons n rest ih =>
    rw [Resolution.resolve, Resolution.resolve, h.fetch]
    rcases r.cache.fetch G' n g with ⟨e | c, cache, g₁⟩
    · dsimp only
      split
      · rfl
      · exact ih _ g₁
    · exact ih _ g₁

/-- A plan is the same, and what shows of the generator goes along. -/
theorem plan (h : G'.Refines G f) (s : Streamer) (v : View) (g : γ') :
    s.plan G v (f g) = ((s.plan G' v g).1, f (s.plan G' v g).2) := by
  unfold Streamer.plan
  cases s.inView v with
  | error e => rfl
  | ok nodes =>
    dsimp only
    split
    · rfl
    · rw [h.resolve]
      rcases Resolution.resolve G' ⟨s.cache, #[], ∅⟩ (NodeDiff.between s.visible nodes).toAdd g
        with ⟨_ | r, g₁⟩
      · rfl
      · rfl

/-- A part of a pass is the same, and what shows of the generator and of the sink goes along. -/
theorem pass (h : G'.Refines G f) (hK : K'.Refines K q) (v : View) (p : Pass) (g : γ') (k : σ') :
    p.step G K v (f g) (q k) = ((p.step G' K' v g k).1, f (p.step G' K' v g k).2.1,
      q (p.step G' K' v g k).2.2) := by
  cases p with
  | begun s =>
    rw [Pass.step, Pass.step, h.plan]
    rcases s.plan G' v g with ⟨_ | _ | _, g₁⟩
    · rfl
    · rfl
    · rfl
  | resolved old next removed added =>
    rw [Pass.step, Pass.step, hK.remove_eq]
    rcases K'.remove removed k with ⟨_ | _, k₁⟩
    · rfl
    · rfl
  | withdrawn next removed added =>
    rw [Pass.step, Pass.step, hK.add_eq]
    rcases K'.add added k with ⟨_ | _, k₁⟩
    · rfl
    · rfl
  | ended s changed => rfl

end Generator.Refines

/-! ## Sessions -/

/-- What is shared, seen through `f` and `q`. -/
def Shared.map (f : γ' → γ) (q : σ' → σ) (m : Shared γ' σ') : Shared γ σ :=
  { m with generator := f m.generator, sink := q m.sink }

/-- The session, seen through `f` and `q`. -/
def Session.map (f : γ' → γ) (q : σ' → σ) (x : Session γ' σ') : Session γ σ :=
  { x with shared := x.shared.map f q }

section
variable (hG : G'.Refines G f) (hK : K'.Refines K q)
include hG hK

/-- A part of a pass may be seen through the maps before it or after it. -/
theorem Shared.pass_map (m : Shared γ' σ') (v : View) (p : Pass) :
    (m.map f q).pass G K v p = ((m.pass G' K' v p).1, (m.pass G' K' v p).2.map f q) := by
  unfold pass
  rw [show p.step G K v (m.map f q).generator (m.map f q).sink = _ from
    hG.pass hK v p m.generator m.sink]
  rfl

/-- A step of a worker may be seen through the maps before it or after it. -/
theorem Worker.step_map (w : Worker) (m : Shared γ' σ') :
    w.step G K (m.map f q) = (w.step G' K' m).map fun r => (r.1, r.2.map f q) := by
  cases w with
  | checking s =>
    obtain ⟨⟨view, rev, stop⟩, stats, g, k⟩ := m
    cases stop with
    | true => rfl
    | false => rfl
  | passing p v rev =>
    cases p with
    | begun _ | resolved _ _ _ _ | withdrawn _ _ _ =>
      unfold step
      dsimp only
      rw [Shared.pass_map hG hK]
      rfl
    | ended s changed => rfl
  | pausing _ _ _ | asleep _ _ _ | finished _ | died | joined => rfl

namespace Session

omit hG in
/-- A call of start may be seen through the maps before it or after it. -/
theorem start_map (x : Session γ' σ') (v : View) :
    (x.map f q).start K v = (x.start K' v).map f q := by
  obtain ⟨config, shared, idle, handle, threads, owner⟩ := x
  unfold start takeStreamer
  cases handle with
  | some i => rfl
  | none =>
    cases idle with
    | some s => rfl
    | none =>
      dsimp only [map, Shared.map]
      rw [hK.clear_eq]
      cases Streamer.ofConfig config with
      | error e => rfl
      | ok s => rfl

/-- An owner that goes on may be seen through the maps before it or after it. -/
theorem proceed_map (x : Session γ' σ') :
    (x.map f q).proceed G K = (x.proceed G' K').map (map f q) := by
  obtain ⟨config, shared, idle, handle, threads, owner⟩ := x
  cases owner with
  | free | storing _ _ | spawning _ | stopping _ => rfl
  | passing p v =>
    cases p with
    | begun _ | resolved _ _ _ _ | withdrawn _ _ _ =>
      unfold proceed
      dsimp only [map]
      rw [Shared.pass_map hG hK]
      rfl
    | ended s changed => rfl
  | joining i =>
    unfold proceed
    dsimp only [map]
    split
    · rfl
    · rfl
    · rfl

/-- A step of a session may be seen through the maps before it or after it. -/
theorem step_map (x : Session γ' σ') (e : Event) :
    (x.map f q).step G K e = (x.step G' K' e).map (map f q) := by
  obtain ⟨config, shared, idle, handle, threads, owner⟩ := x
  cases e with
  | start v =>
    cases owner with
    | free => exact congrArg some (start_map hK ⟨config, shared, idle, handle, threads, .free⟩ v)
    | storing _ _ | passing _ _ | spawning _ | stopping _ | joining _ => rfl
  | update v | refuse =>
    cases owner with
    | free | storing _ _ | passing _ _ | spawning _ | stopping _ | joining _ => rfl
  | stop =>
    cases owner with
    | free =>
      cases handle with
      | none => rfl
      | some i => rfl
    | storing _ _ | passing _ _ | spawning _ | stopping _ | joining _ => rfl
  | proceed => exact proceed_map hG hK _
  | work i =>
    unfold step
    dsimp only [map]
    cases threads[i]? with
    | none => rfl
    | some w =>
      dsimp only [Option.bind_eq_bind, Option.bind_some]
      rw [Worker.step_map hG hK]
      cases w.step G' K' shared with
      | none => rfl
      | some r => rfl
  | timeOut i =>
    unfold step
    dsimp only [map]
    cases threads[i]? with
    | none => rfl
    | some w =>
      dsimp only [Option.bind_eq_bind, Option.bind_some, Shared.map]
      cases w.timeOut shared.control with
      | none => rfl
      | some w' => rfl

/-- A run may be seen through the maps before it or after it. -/
theorem run_map (x : Session γ' σ') (events : List Event) :
    (x.map f q).run G K events = (x.run G' K' events).map (map f q) := by
  induction events generalizing x with
  | nil => rfl
  | cons e rest ih =>
    rw [run, run, step_map hG hK]
    cases x.step G' K' e with
    | none => rfl
    | some y => exact ih y

omit hG hK in
/-- A new session may be seen through the maps as well. -/
theorem ofConfig_map (c : Config) (g : γ') (k : σ') :
    ofConfig c (f g) (q k) = (ofConfig c g k).map (map f q) := by
  unfold ofConfig
  cases c.validate with
  | error e => rfl
  | ok t =>
    cases Streamer.ofConfig c with
    | error e => rfl
    | ok s => rfl

/-- What can be reached is what shows of what the refined session can reach. -/
theorem reached_iff {c : Config} {g : γ'} {k : σ'} {events : List Event} {x : Session γ σ} :
    x.Reached G K c (f g) (q k) events ↔
      ∃ y : Session γ' σ', y.Reached G' K' c g k events ∧ y.map f q = x := by
  constructor
  · rintro ⟨x₀, h₀, hrun⟩
    rw [ofConfig_map] at h₀
    cases hnew : ofConfig c g k with
    | error e =>
      rw [hnew] at h₀
      cases h₀
    | ok y₀ =>
      rw [hnew] at h₀
      cases h₀
      rw [run_map hG hK] at hrun
      obtain ⟨y, hy, hmap⟩ := Option.map_eq_some_iff.1 hrun
      exact ⟨y, ⟨y₀, hnew, hy⟩, hmap⟩
  · rintro ⟨y, ⟨y₀, h₀, hrun⟩, rfl⟩
    refine ⟨y₀.map f q, ?_, ?_⟩
    · rw [ofConfig_map, h₀]
      rfl
    · rw [run_map hG hK, hrun]
      rfl

end Session
end

/-! ## Records -/

/-- The sink that writes down its calls, the latest at the end, whatever comes of them. -/
def Sink.recording (K : Sink σ) : Sink (σ × List Call) where
  add chunks k := ((K.add chunks k.1).1, (K.add chunks k.1).2, k.2 ++ [.add chunks])
  remove chunks k := ((K.remove chunks k.1).1, (K.remove chunks k.1).2, k.2 ++ [.remove chunks])
  clear k := (K.clear k.1, k.2 ++ [.clear])

/-- A recorded call of add comes to what the call comes to, and is written down. -/
theorem Sink.recording_add (K : Sink σ) (chunks : List Chunk) (b : σ × List Call) :
    K.recording.add chunks b =
      ((K.add chunks b.1).1, (K.add chunks b.1).2, b.2 ++ [.add chunks]) := rfl

/-- A recorded call of remove comes to what the call comes to, and is written down. -/
theorem Sink.recording_remove (K : Sink σ) (chunks : List Chunk) (b : σ × List Call) :
    K.recording.remove chunks b =
      ((K.remove chunks b.1).1, (K.remove chunks b.1).2, b.2 ++ [.remove chunks]) := rfl

/-- Without its record, a recording sink does what the sink does. -/
theorem Sink.recording_refines (K : Sink σ) : K.recording.Refines K Prod.fst :=
  ⟨fun _ _ => rfl, fun _ _ => rfl, fun _ => rfl⟩

/-- A session that writes down all calls of its generator and of its sink. -/
abbrev Session.Recorded (γ σ : Type) : Type :=
  Session (γ × List Generator.Call) (σ × List Sink.Call)

namespace Session.Recorded

/-- The session without its records. -/
def erase (y : Recorded γ σ) : Session γ σ := y.map Prod.fst Prod.fst

/-- The session has come of a new one with empty records, and its calls were written down. -/
def Reached (G : Generator γ) (K : Sink σ) (c : Config) (g : γ) (k : σ) (events : List Event)
    (y : Recorded γ σ) : Prop :=
  Session.Reached G.recording K.recording c (g, []) (k, []) events y

/-- The runs of sessions are those of recorded sessions, without the records. -/
theorem reached_erase_iff {c : Config} {g : γ} {k : σ} {events : List Event} {x : Session γ σ} :
    x.Reached G K c g k events ↔
      ∃ y : Recorded γ σ, y.Reached G K c g k events ∧ y.erase = x :=
  Session.reached_iff G.recording_refines K.recording_refines (g := (g, [])) (k := (k, []))

end Session.Recorded

end VoxelStream
