import VoxelStream.Proofs.Render.Frame

/-!
# What a recorder writes down

A recorder takes the level of a draw from the bind before it, and a frame binds only where it has
something to draw. The two agree (`Frame.Records`): a recorder that has forgotten everything refuses
no draw of a frame, and what it writes down is a bind for every batch of the frame and the draw of
every chunk in it. So the summary has a line for every batch (`Retained.recorder_agrees`).

Apart from frames, a recorder refuses a draw if and only if nothing was bound since it last forgot
everything (`Recorder.isSome_current_run_iff`).
-/

namespace VoxelStream

namespace Recorder

/-! ## Any requests -/

/-- What a recorder can be asked for. -/
inductive Request where
  | bind (lod : UInt32)
  | draw (geometry : Geometry) (model : Matrix)
  | clear

/-- What comes of a request, and the recorder after it. Only a draw can be refused. -/
def ask (r : Recorder) : Request → Except PaintError Unit × Recorder
  | .bind lod => (.ok (), r.bind lod)
  | .draw geometry model => r.draw geometry model
  | .clear => (.ok (), r.clear)

/-- Among the requests is a bind after which nothing was cleared. -/
def IsBound (requests : List Request) : Prop :=
  ∃ before lod after, requests = before ++ .bind lod :: after ∧ Request.clear ∉ after

/-- A recorder starts without a material. -/
theorem not_isBound_nil : ¬ IsBound [] := by
  rintro ⟨before, lod, after, h, -⟩
  simp at h

/-- One more request binds, clears, or leaves what was. -/
theorem isBound_snoc_iff {past : List Request} {q : Request} : IsBound (past ++ [q]) ↔
    match q with
    | .bind _ => True
    | .draw _ _ => IsBound past
    | .clear => False := by
  constructor
  · rintro ⟨before, lod, after, h, hclear⟩
    rcases List.eq_nil_or_concat' after with rfl | ⟨rest, last, rfl⟩
    · obtain ⟨-, rfl⟩ := List.append_singleton_inj.1 h
      trivial
    · rw [← List.cons_append, ← List.append_assoc] at h
      obtain ⟨rfl, rfl⟩ := List.append_singleton_inj.1 h
      rw [List.mem_append, not_or] at hclear
      cases q with
      | bind lod => trivial
      | draw geometry model => exact ⟨before, lod, rest, rfl, hclear.1⟩
      | clear => exact hclear.2 List.mem_cons_self
  · intro h
    cases q with
    | bind lod => exact ⟨past, lod, [], rfl, List.not_mem_nil⟩
    | draw geometry model =>
      obtain ⟨before, lod, after, rfl, hclear⟩ := h
      refine ⟨before, lod, after ++ [.draw geometry model], by simp, ?_⟩
      simpa using hclear
    | clear => exact h.elim

/-- A draw needs a level, and a recorder without one is left as it is. -/
theorem draw_eq_error_iff {r : Recorder} {geometry : Geometry} {model : Matrix} :
    (∃ e, (r.draw geometry model).1 = .error e) ↔ r.current = none := by
  unfold draw
  cases r.current with
  | none => simp
  | some lod => simp

/-- A recorder that refuses a draw writes nothing down. -/
theorem draw_eq_self {r : Recorder} {geometry : Geometry} {model : Matrix} {e : PaintError}
    (h : (r.draw geometry model).1 = .error e) : (r.draw geometry model).2 = r := by
  have hcurrent := draw_eq_error_iff.1 ⟨e, h⟩
  simp only [draw, hcurrent]

/-- A draw leaves the level of the material as it is. -/
theorem current_draw (r : Recorder) (geometry : Geometry) (model : Matrix) :
    (r.draw geometry model).2.current = r.current := by
  unfold draw
  split
  · rfl
  · rfl

/-- After any requests a level is bound if one was since everything was last forgotten. -/
theorem isSome_current_run_iff (r : Recorder) (requests : List Request) :
    (Dialogue.run ask r.clear requests).2.current.isSome ↔ IsBound requests := by
  -- The state after the requests so far is told by them, and the answers do not matter.
  suffices ∀ past t, (t.current.isSome ↔ IsBound past) →
      ((Dialogue.run ask t requests).2.current.isSome ↔ IsBound (past ++ requests)) from
    this [] r.clear ⟨fun h => (by cases h), fun h => (not_isBound_nil h).elim⟩
  induction requests with
  | nil =>
    intro past t h
    rw [List.append_nil]
    exact h
  | cons q rest ih =>
    intro past t h
    rw [← List.singleton_append, ← List.append_assoc]
    refine ih _ _ (Iff.trans ?_ isBound_snoc_iff.symm)
    cases q with
    | bind lod => exact ⟨fun _ => trivial, fun _ => rfl⟩
    | draw geometry model =>
      show (t.draw geometry model).2.current.isSome ↔ _
      rw [current_draw]
      exact h
    | clear => exact ⟨fun h => (by cases h), fun h => h.elim⟩

end Recorder

/-- The draw of a chunk as a recorder writes it down. -/
def Chunk.drawCall (referential : Coord) (c : Chunk) : DrawCall :=
  ⟨c.lod, modelMatrix (c.origin.minus referential) c.node.edge, c.geometry.triangleCount⟩

namespace Frame

variable {referential : Coord} {lod : UInt32} {chunks : List Chunk}
  {batches : List (UInt32 × List Chunk)}

/-! ## A frame on a recorder -/

/-- What a recorder has written down after requests none of which it refused. -/
structure Records (r : Recorder) (requests : List Painter.Request) (binds : List UInt32)
    (draws : List DrawCall) : Prop where
  binds : (Dialogue.run Recorder.painter.answer r requests).2.binds.toList =
    r.binds.toList ++ binds
  draws : (Dialogue.run Recorder.painter.answer r requests).2.draws.toList =
    r.draws.toList ++ draws
  accepts : (Dialogue.run Recorder.painter.answer r requests).1.countP
    Painter.Answer.isRefused = 0

namespace Records

variable {r : Recorder}

/-- Without requests nothing is written down. -/
theorem nil (r : Recorder) : Records r [] [] [] :=
  ⟨(List.append_nil _).symm, (List.append_nil _).symm, rfl⟩

/-- What is written down of requests that are put in two parts. -/
theorem append {first second : List Painter.Request} {bs bs' : List UInt32}
    {ds ds' : List DrawCall} (h : Records r first bs ds)
    (h' : Records (Dialogue.run Recorder.painter.answer r first).2 second bs' ds') :
    Records r (first ++ second) (bs ++ bs') (ds ++ ds') := by
  constructor
  all_goals rw [Dialogue.run_append]
  · rw [h'.binds, h.binds, List.append_assoc]
  · rw [h'.draws, h.draws, List.append_assoc]
  · rw [List.countP_append, h.accepts, h'.accepts]

/-- With the level of some chunks bound, their draws are written down as theirs. -/
theorem draws_of_current (hlod : r.current = some lod) (hchunks : ∀ c ∈ chunks, c.lod = lod) :
    Records r (chunks.map (Chunk.request referential)) []
      (chunks.map (Chunk.drawCall referential)) := by
  induction chunks generalizing r with
  | nil => exact .nil r
  | cons c rest ih =>
    obtain ⟨hc, hrest⟩ := List.forall_mem_cons.1 hchunks
    have hanswer : Recorder.painter.answer r (c.request referential) =
        (.drawn, { r with draws := r.draws.push (c.drawCall referential) }) := by
      simp only [Chunk.request, Painter.answer, Recorder.painter, Recorder.draw, hlod,
        Chunk.drawCall, hc]
    have hfirst : Records r [c.request referential] [] [c.drawCall referential] := by
      constructor
      all_goals rw [Dialogue.run, Dialogue.run, hanswer]
      · exact (List.append_nil _).symm
      · exact Array.toList_push
      · rfl
    refine hfirst.append (ih ?_ hrest)
    rw [Dialogue.run, Dialogue.run, hanswer]
    exact hlod

/-- Of a batch the material and the draws are written down. -/
theorem script (r : Recorder) {batch : UInt32 × List Chunk}
    (hbatch : ∀ c ∈ batch.2, c.lod = batch.1) :
    Records r (Frame.script referential batch) [batch.1]
      (batch.2.map (Chunk.drawCall referential)) := by
  have hbind : Records r [.bind batch.1] [batch.1] [] :=
    ⟨Array.toList_push, (List.append_nil _).symm, rfl⟩
  exact hbind.append (draws_of_current rfl hbatch)

/-- Of batches the materials and the draws are written down. -/
theorem scripts (referential : Coord) (r : Recorder)
    (h : ∀ b ∈ batches, ∀ c ∈ b.2, c.lod = b.1) :
    Records r (batches.flatMap (Frame.script referential)) (batches.map Prod.fst)
      ((batches.flatMap Prod.snd).map (Chunk.drawCall referential)) := by
  induction batches generalizing r with
  | nil => exact .nil r
  | cons b rest ih =>
    obtain ⟨hb, hrest⟩ := List.forall_mem_cons.1 h
    rw [List.flatMap_cons, List.flatMap_cons, List.map_append]
    exact (script r hb).append (ih _ hrest)

end Records

/-! ## The lines of the summary -/

/-- Of the chunks of batches of different levels those of one level are those of its batch. -/
theorem countP_flatMap_eq_length (hne : (batches.map Prod.fst).Pairwise (· > ·))
    (hlod : ∀ b ∈ batches, ∀ c ∈ b.2, c.lod = b.1) {b : UInt32 × List Chunk} (hb : b ∈ batches) :
    (batches.flatMap Prod.snd).countP (·.lod == b.1) = b.2.length := by
  induction batches with
  | nil => cases hb
  | cons a rest ih =>
    rw [List.map_cons, List.pairwise_cons] at hne
    obtain ⟨ha, hrest⟩ := List.forall_mem_cons.1 hlod
    have hdiffers : ∀ d ∈ rest, d.1 ≠ a.1 := fun d hd =>
      UInt32.ne_of_lt (hne.1 d.1 (List.mem_map_of_mem hd))
    rw [List.flatMap_cons, List.countP_append]
    rcases List.mem_cons.1 hb with rfl | hb
    · have hall : b.2.countP (·.lod == b.1) = b.2.length :=
        List.countP_eq_length.2 fun c hc => by simp [ha c hc]
      have hnone : (rest.flatMap Prod.snd).countP (·.lod == b.1) = 0 := by
        refine List.countP_eq_zero.2 fun c hc => ?_
        obtain ⟨d, hd, hcd⟩ := List.mem_flatMap.1 hc
        simp [hrest d hd c hcd, hdiffers d hd]
      rw [hall, hnone, Nat.add_zero]
    · have hnone : a.2.countP (·.lod == b.1) = 0 := by
        refine List.countP_eq_zero.2 fun c hc => ?_
        simp [ha c hc, (hdiffers b hb).symm]
      rw [hnone, Nat.zero_add, ih hne.2 hrest hb]

/-- The levels of the chunks of descending batches never go up. -/
theorem pairwise_lod_flatMap (hdesc : (batches.map Prod.fst).Pairwise (· > ·))
    (hlod : ∀ b ∈ batches, ∀ c ∈ b.2, c.lod = b.1) :
    ((batches.flatMap Prod.snd).map Chunk.lod).Pairwise (· ≥ ·) := by
  rw [List.pairwise_map, List.pairwise_flatMap]
  refine ⟨fun b hb => ?_, ?_⟩
  · refine List.pairwise_of_forall_mem_list fun c hc d hd => ?_
    rw [hlod b hb c hc, hlod b hb d hd]
    exact UInt32.le_refl _
  · refine (List.pairwise_map.1 hdesc).imp_of_mem fun {a b} ha hb hab c hc d hd => ?_
    rw [hlod a ha c hc, hlod b hb d hd]
    exact UInt32.le_of_lt hab

end Frame

namespace Recorder

/-- A line of the summary after the first: a level and how many chunks of it were drawn. -/
def summaryLine (l : UInt32 × Nat) : String := s!"  lod {l.1.toNat}: {l.2} chunks"

/-- A recorder that has written down just these batches. -/
structure Shows (r : Recorder) (referential : Coord) (batches : List (UInt32 × List Chunk)) :
    Prop where
  binds : r.binds.toList = batches.map Prod.fst
  draws : r.draws.toList = (batches.flatMap Prod.snd).map (Chunk.drawCall referential)

namespace Shows

variable {r : Recorder} {referential : Coord} {batches : List (UInt32 × List Chunk)}

/-- There is a bind for each batch. -/
theorem size_binds (h : r.Shows referential batches) : r.binds.size = batches.length := by
  rw [← Array.length_toList, h.binds, List.length_map]

/-- There is a draw for each chunk of a batch. -/
theorem size_draws (h : r.Shows referential batches) :
    r.draws.size = (batches.flatMap Prod.snd).length := by
  rw [← Array.length_toList, h.draws, List.length_map]

/-- The draws of a level are those of its batch. -/
theorem countOf_eq (h : r.Shows referential batches)
    (hdesc : (batches.map Prod.fst).Pairwise (· > ·))
    (hlod : ∀ b ∈ batches, ∀ c ∈ b.2, c.lod = b.1) {b : UInt32 × List Chunk} (hb : b ∈ batches) :
    r.countOf b.1 = b.2.length := by
  rw [← Frame.countP_flatMap_eq_length hdesc hlod hb, countOf, ← Array.countP_toList, h.draws,
    List.countP_map]
  rfl

/-- The summary has a line for every batch. -/
theorem summary_eq (h : r.Shows referential batches)
    (hdesc : (batches.map Prod.fst).Pairwise (· > ·))
    (hlod : ∀ b ∈ batches, ∀ c ∈ b.2, c.lod = b.1) :
    r.summary = .join ((s!"binds={r.binds.size} draws={r.draws.size} triangles={r.triangles}" ::
      (batches.map fun b => (b.1, b.2.length)).map summaryLine).map (· ++ "\n")) := by
  have hlines : r.binds.toList.map (fun lod => s!"  lod {lod.toNat}: {r.countOf lod} chunks") =
      (batches.map fun b => (b.1, b.2.length)).map summaryLine := by
    rw [h.binds, List.map_map, List.map_map]
    refine List.map_congr_left fun b hb => ?_
    rw [Function.comp_apply, Function.comp_apply, summaryLine, h.countOf_eq hdesc hlod hb]
  rw [summary, summaryLines, hlines]

end Shows
end Recorder

namespace Retained

variable {r : Retained} {levels : List (UInt32 × List Chunk)}

namespace Order

variable (filter : ChunkFilter) (referential : Coord)

/-- The levels with something to draw descend. -/
theorem pairwise_batches (ho : r.Order levels) :
    ((Frame.batches filter referential levels).map Prod.fst).Pairwise (· > ·) :=
  ho.pairwise.sublist Frame.map_fst_batches_sublist

/-- The chunks of a batch are of its level. -/
theorem lod_batches (ho : r.Order levels) (hr : r.Built) :
    ∀ b ∈ Frame.batches filter referential levels, ∀ c ∈ b.2, c.lod = b.1 := by
  intro b hb c hc
  obtain ⟨-, l, hl, hlod, hdrawn⟩ := Frame.mem_batches.1 hb
  rw [← hdrawn] at hc
  rw [← hlod]
  exact ho.lod_eq hr hl (List.mem_of_mem_filter hc)

/-- The chunks of the batches are the retained ones that are drawn, each once. -/
theorem mem_flatMap_batches (ho : r.Order levels) (hr : r.Built) (c : Chunk) :
    c ∈ (Frame.batches filter referential levels).flatMap Prod.snd ↔
      r.chunkOf c.node = some c ∧ c.IsDrawn filter referential := by
  rw [Frame.flatMap_batches, Frame.drawn, List.mem_filter, ho.perm_chunks.mem_iff, hr.mem_chunks,
    decide_eq_true_iff]

/-- No chunk is in the batches twice. -/
theorem nodup_flatMap_batches (ho : r.Order levels) (hr : r.Built) :
    ((Frame.batches filter referential levels).flatMap Prod.snd).Nodup := by
  rw [Frame.flatMap_batches]
  exact (ho.perm_chunks.nodup_iff.2 hr.nodup_chunks).filter _

end Order

/-- A frame and a recorder that has forgotten everything agree, in whatever order the frame takes
the chunks of a level. No draw is refused, and as many binds and draws are written down as the frame
counts. The draws are those of the chunks that pass and have triangles, each once, with its own
level and its number of triangles, and their levels never go up. The summary goes through the levels
that were drawn, from the coarsest to the finest, and tells how many chunks each had. And whatever
else a recorder was asked for, it refuses a draw if and only if nothing was bound since it last
forgot everything, and then writes nothing down. -/
theorem recorder_agrees {filter : ChunkFilter} {referential : Coord} (hr : r.Built)
    (ho : r.Order levels)
    (hin : ∀ n c, r.chunkOf n = some c → ¬ c.Overflows filter referential) (p : Recorder) :
    (∃ (f : Frame Recorder) (drawn : List Chunk) (counts : List (UInt32 × Nat)),
      Frame.drawLevels Recorder.painter filter referential ⟨{}, p.clear⟩ levels = .ok f ∧
      f.stats.failed = 0 ∧ f.painter.draws.size = f.stats.draws ∧
      f.painter.binds.size = f.stats.binds ∧
      drawn.Nodup ∧
      (∀ c, c ∈ drawn ↔ r.chunkOf c.node = some c ∧
        c.passes filter referential = .ok true ∧ c.geometry.isEmpty = false) ∧
      f.painter.draws.toList = drawn.map (Chunk.drawCall referential) ∧
      (f.painter.draws.toList.map DrawCall.lod).Pairwise (· ≥ ·) ∧
      f.painter.summary = .join ((s!"binds={f.stats.binds} draws={f.stats.draws} triangles={
        f.painter.triangles}" :: counts.map Recorder.summaryLine).map (· ++ "\n")) ∧
      (counts.map Prod.fst).Pairwise (· > ·) ∧
      (∀ l ∈ counts, 1 ≤ l.2 ∧ l.2 = f.painter.draws.countP (·.lod == l.1)) ∧
      (counts.map Prod.snd).sum = f.painter.draws.size) ∧
    ∀ (requests : List Recorder.Request) (geometry : Geometry) (model : Matrix),
      let t := (Dialogue.run Recorder.ask p.clear requests).2
      ((∃ e, (t.draw geometry model).1 = .error e) ↔ ¬ Recorder.IsBound requests) ∧
        ∀ e, (t.draw geometry model).1 = .error e → (t.draw geometry model).2 = t := by
  have hdesc := ho.pairwise_batches filter referential
  have hlod := ho.lod_batches filter referential hr
  have hlevels : ∀ c ∈ levels.flatMap Prod.snd, ¬ c.Overflows filter referential := fun c hc =>
    (ho.mem_iff.1 hc).elim fun n hn => hin n c hn
  obtain ⟨f, hf, hperforms, -⟩ := Frame.exists_drawLevels_eq hlevels Recorder.painter p.clear
  have hmem := ho.mem_flatMap_batches filter referential hr
  have hnodup := ho.nodup_flatMap_batches filter referential hr
  have hnonempty : ∀ b ∈ Frame.batches filter referential levels, b.2 ≠ [] := fun b hb =>
    (Frame.mem_batches.1 hb).1
  generalize Frame.batches filter referential levels = batches at *
  obtain ⟨hbinds, hsubmitted⟩ := hperforms.figures
  have hrecords := Frame.Records.scripts referential p.clear hlod
  have hfailed : f.stats.failed = 0 := hperforms.failed_eq.trans hrecords.accepts
  have hshows : f.painter.Shows referential batches := by
    constructor
    all_goals rw [hperforms.painter_eq]
    · exact hrecords.binds
    · exact hrecords.draws
  have hdraws : f.painter.draws.size = f.stats.draws := by
    rw [hshows.size_draws, ← hsubmitted, hfailed, Nat.add_zero]
  have hbound : f.painter.binds.size = f.stats.binds := hshows.size_binds.trans hbinds.symm
  refine ⟨⟨f, batches.flatMap Prod.snd, batches.map fun b => (b.1, b.2.length), hf, hfailed, hdraws,
    hbound, hnodup, hmem, hshows.draws, ?descends, ?summary, ?levels, ?counts, ?total⟩, ?refuses⟩
  case descends =>
    rw [hshows.draws, List.map_map]
    exact Frame.pairwise_lod_flatMap hdesc hlod
  case summary =>
    rw [hshows.summary_eq hdesc hlod, hbound, hdraws]
  case levels =>
    rw [List.map_map]
    exact hdesc
  case counts =>
    intro l hl
    obtain ⟨b, hb, rfl⟩ := List.mem_map.1 hl
    exact ⟨List.length_pos_of_ne_nil (hnonempty b hb), (hshows.countOf_eq hdesc hlod hb).symm⟩
  case total =>
    rw [hshows.size_draws, List.map_map, List.length_flatMap]
    rfl
  case refuses =>
    intro requests geometry model t
    refine ⟨?_, fun e => Recorder.draw_eq_self⟩
    rw [Recorder.draw_eq_error_iff, ← Recorder.isSome_current_run_iff p requests,
      Option.not_isSome_iff_eq_none]

/-- Of three chunks, two levels and one chunk without triangles, two draws are written down by a
recorder that was in use before. Once cleared again it refuses to draw. -/
theorem recorder_agrees_mixed :
    (∃ f, mixed.render Recorder.painter .all .zero (Recorder.empty.bind 7).clear = .ok f ∧
      f.stats.failed = 0 ∧ f.painter.draws.size = 2 ∧ f.stats.draws = 2 ∧
      (f.painter.draws.toList.map DrawCall.lod).Pairwise (· ≥ ·)) ∧
    ∃ e, ((Dialogue.run Recorder.ask (Recorder.empty.bind 7).clear [.bind 1, .clear]).2.draw .empty
      .identity).1 = .error e := by
  have hin : ∀ n c, mixed.chunkOf n = some c → ¬ c.Overflows .all .zero := by
    intro n c hc hover
    have hall : ∀ c ∈ mixed.chunks, c.passes .all .zero ≠ .error .overflow := by decide +kernel
    exact hall c (mem_chunks.2 ⟨n, hc⟩) (Chunk.passes_eq_error_iff.2 ⟨rfl, hover⟩)
  have hbuilt : mixed.Built := .add .empty _
  obtain ⟨⟨f, drawn, counts, hf, hfailed, hdraws, -, hnodup, hmem, hcalls, hlods, -⟩, hrefuses⟩ :=
    recorder_agrees hbuilt mixed.order_reverse_levels hin (Recorder.empty.bind 7)
  have htwo : drawn.Perm (mixed.chunks.filter fun c => c.IsDrawn .all .zero) := by
    refine (List.perm_ext_iff_of_nodup hnodup (hbuilt.nodup_chunks.filter _)).2 fun c => ?_
    rw [hmem, List.mem_filter, hbuilt.mem_chunks, decide_eq_true_iff]
    rfl
  have hlen : (mixed.chunks.filter fun c => c.IsDrawn .all .zero).length = 2 := by decide +kernel
  have hsize : f.painter.draws.size = 2 := by
    rw [← Array.length_toList, hcalls, List.length_map, htwo.length_eq, hlen]
  refine ⟨⟨f, hf, hfailed, hsize, hdraws.symm.trans hsize, hlods⟩, ?_⟩
  refine (hrefuses [.bind 1, .clear] .empty .identity).1.2 ?_
  exact fun h => Recorder.isBound_snoc_iff.1 (show Recorder.IsBound ([.bind 1] ++ [.clear]) from h)

end Retained
end VoxelStream
