import VoxelStream.Proofs.Render.Range
import VoxelStream.Proofs.Render.Retained
import VoxelStream.Proofs.Store.Dialogue

/-!
# Frames as scripts

A frame asks its painter for the same things whatever the painter answers. So a frame is the
performance of a script (`Frame.perform`): the requests of the script are put to the painter one
after the other (`Painter.answer`), and its answers are counted. The script depends only on the
chunks, the filter and the referential: for each level with something to draw, the bind of its
material and then its draws (`Frame.drawLevels_eq`). A refused draw changes nothing of what comes
after it because there is no place in the script for an answer.

Of the retained set this gives two results. A frame that stays in the words accounts for every
chunk (`Retained.frame_accounts`), and it leaves them at the chunks at which the arithmetic does and
for no other reason (`Retained.frame_overflows`).
-/

namespace VoxelStream

/-! ## Painters -/

namespace Painter

/-- What a painter can be asked for. -/
inductive Request where
  | bind (lod : UInt32)
  | draw (geometry : Geometry) (model : Matrix)

/-- What can come of a request. -/
inductive Answer where
  | bound
  | drawn
  | refused (e : PaintError)

def Request.isBind : Request → Bool
  | .bind _ => true
  | .draw _ _ => false

def Request.isDraw : Request → Bool
  | .bind _ => false
  | .draw _ _ => true

namespace Answer

def isBound : Answer → Bool
  | .bound => true
  | .drawn | .refused _ => false

def isDrawn : Answer → Bool
  | .drawn => true
  | .bound | .refused _ => false

def isRefused : Answer → Bool
  | .refused _ => true
  | .bound | .drawn => false

end Answer

variable {π : Type}

/-- What a painter answers to a request, and its state then. -/
def answer (P : Painter π) (p : π) : Request → Answer × π
  | .bind lod => (.bound, P.bind lod p)
  | .draw geometry model =>
    match P.draw geometry model p with
    | (.ok (), p) => (.drawn, p)
    | (.error e, p) => (.refused e, p)

/-- A draw is made or refused. -/
theorem answer_draw (P : Painter π) (p : π) (geometry : Geometry) (model : Matrix) :
    (P.answer p (.draw geometry model)).1 = .drawn ∨
      ∃ e, (P.answer p (.draw geometry model)).1 = .refused e := by
  simp only [answer]
  rcases P.draw geometry model p with ⟨e | _, p'⟩
  · exact .inr ⟨e, rfl⟩
  · exact .inl rfl

/-- To each bind that is asked for the answer is that it was made, and to each draw that it was made
or that it was refused. -/
theorem countP_answers (P : Painter π) (p : π) (requests : List Request) :
    (Dialogue.run P.answer p requests).1.countP Answer.isBound =
        requests.countP Request.isBind ∧
      (Dialogue.run P.answer p requests).1.countP Answer.isDrawn +
          (Dialogue.run P.answer p requests).1.countP Answer.isRefused =
        requests.countP Request.isDraw := by
  induction requests generalizing p with
  | nil => exact ⟨rfl, rfl⟩
  | cons q rest ih =>
    obtain ⟨hbinds, hdraws⟩ := ih (P.answer p q).2
    simp only [Dialogue.run, List.countP_cons, hbinds, ← hdraws]
    cases q with
    | bind lod => exact ⟨rfl, rfl⟩
    | draw geometry model =>
      rcases P.answer_draw p geometry model with h | ⟨e, h⟩
      · rw [h]
        exact ⟨rfl, Nat.add_right_comm _ _ _⟩
      · rw [h]
        exact ⟨rfl, rfl⟩

end Painter

/-! ## Chunks -/

namespace Chunk

variable {filter : ChunkFilter} {referential : Coord} {c : Chunk}

/-- The chunk passes the filter and has triangles. -/
def IsDrawn (filter : ChunkFilter) (referential : Coord) (c : Chunk) : Prop :=
  c.passes filter referential = .ok true ∧ c.geometry.isEmpty = false

instance (filter : ChunkFilter) (referential : Coord) : DecidablePred (IsDrawn filter referential) :=
  fun _ => inferInstanceAs (Decidable (_ ∧ _))

/-- The chunk passes the filter, but there is nothing to draw. -/
def IsSkipped (filter : ChunkFilter) (referential : Coord) (c : Chunk) : Prop :=
  c.passes filter referential = .ok true ∧ c.geometry.isEmpty = true

instance (filter : ChunkFilter) (referential : Coord) :
    DecidablePred (IsSkipped filter referential) :=
  fun _ => inferInstanceAs (Decidable (_ ∧ _))

/-- A chunk in the words is filtered, empty or drawn. -/
theorem filtered_or_isSkipped_or_isDrawn
    (h : ¬ c.Overflows filter referential) : c.passes filter referential = .ok false ∨
      c.IsSkipped filter referential ∨ c.IsDrawn filter referential := by
  obtain ⟨b, hb⟩ := exists_passes_eq_ok h
  cases b with
  | false => exact .inl hb
  | true =>
    cases he : c.geometry.isEmpty with
    | true => exact .inr (.inl ⟨hb, he⟩)
    | false => exact .inr (.inr ⟨hb, he⟩)

/-- The draw of a chunk, in its place as seen from the referential. -/
def request (referential : Coord) (c : Chunk) : Painter.Request :=
  .draw c.geometry (modelMatrix (c.origin.minus referential) c.node.edge)

end Chunk

namespace Frame

variable {π : Type} {P : Painter π} {filter : ChunkFilter} {referential : Coord} {lod : UInt32}
  {f : Frame π} {c : Chunk} {chunks : List Chunk} {levels : List (UInt32 × List Chunk)}

/-! ## Performing a script -/

/-- Puts requests to the painter one after the other and counts its answers. -/
def perform (P : Painter π) (f : Frame π) (requests : List Painter.Request) : Frame π where
  stats :=
    let answers := (Dialogue.run P.answer f.painter requests).1
    { f.stats with
      binds := f.stats.binds + answers.countP Painter.Answer.isBound
      draws := f.stats.draws + answers.countP Painter.Answer.isDrawn
      failed := f.stats.failed + answers.countP Painter.Answer.isRefused }
  painter := (Dialogue.run P.answer f.painter requests).2

/-- Counts chunks that are not drawn. -/
def skip (f : Frame π) (filtered empty : Nat) : Frame π :=
  { f with stats := { f.stats with
    filtered := f.stats.filtered + filtered, empty := f.stats.empty + empty } }

/-- Chunks that are passed over are added up. -/
theorem skip_skip (f : Frame π) (m n m' n' : Nat) :
    (f.skip m n).skip m' n' = f.skip (m + m') (n + n') := by
  simp [skip, Nat.add_assoc]

/-- Counting does not concern the painter. -/
theorem perform_skip (f : Frame π) (requests : List Painter.Request) (m n : Nat) :
    (f.skip m n).perform P requests = (f.perform P requests).skip m n := rfl

/-- A script may be performed in two parts. -/
theorem perform_append (f : Frame π) (first second : List Painter.Request) :
    f.perform P (first ++ second) = (f.perform P first).perform P second := by
  simp [perform, Dialogue.run_append, List.countP_append, Nat.add_assoc]

/-- To bind a material is to ask the painter for it. -/
theorem bindOnce_false (f : Frame π) (lod : UInt32) :
    f.bindOnce P lod false = f.perform P [.bind lod] := rfl

/-- To submit a draw is to ask the painter for it, once. -/
theorem submit_eq_perform (f : Frame π) (geometry : Geometry) (model : Matrix) :
    f.submit P geometry model = f.perform P [.draw geometry model] := by
  unfold submit perform
  rw [Dialogue.run, Dialogue.run, Painter.answer]
  rcases P.draw geometry model f.painter with ⟨e | _, p⟩
  · rfl
  · rfl

/-! ## One level -/

/-- What becomes of one chunk. -/
theorem drawLevel_cons {b : Bool} (h : c.passes filter referential = .ok b) (bound : Bool) :
    drawLevel P filter referential lod bound f (c :: chunks) =
      if b = false then drawLevel P filter referential lod bound (f.skip 1 0) chunks
      else if c.geometry.isEmpty then drawLevel P filter referential lod bound (f.skip 0 1) chunks
      else drawLevel P filter referential lod true
        ((f.bindOnce P lod bound).perform P [c.request referential]) chunks := by
  obtain ⟨hsub, hsize, hfilter⟩ := Chunk.passes_eq_ok h
  rw [drawLevel, hsub, hsize, Chunk.request, ← submit_eq_perform]
  simp only [bind, Except.bind, hfilter]
  cases b with
  | false => rfl
  | true => rfl

/-- A level fails with its first chunk that does. -/
theorem drawLevel_cons_error {e : Fault} (h : c.passes filter referential = .error e)
    (bound : Bool) : drawLevel P filter referential lod bound f (c :: chunks) = .error e := by
  unfold Chunk.passes at h
  rw [drawLevel]
  cases hsub : c.origin.sub referential with
  | error e' =>
    rw [hsub] at h
    cases h
    rfl
  | ok relative =>
    cases hsize : c.size with
    | error e' =>
      rw [hsub, hsize] at h
      cases h
      rfl
    | ok size =>
      rw [hsub, hsize] at h
      simp only [bind, Except.bind] at h ⊢
      rw [h]

/-- The bind before the first draw of a level, unless it is made already or there is no draw. -/
def opening (lod : UInt32) (bound : Bool) (drawn : List Chunk) : List Painter.Request :=
  if bound || drawn.isEmpty then [] else [.bind lod]

/-- A level that has a draw left has its material bound, then or before. -/
theorem perform_opening_cons (bound : Bool) (f : Frame π) :
    f.perform P (opening lod bound (c :: chunks)) = f.bindOnce P lod bound := by
  cases bound with
  | false => exact (bindOnce_false f lod).symm
  | true => rfl

/-- The chunks of a list that the filter keeps out. -/
def filtered (filter : ChunkFilter) (referential : Coord) (chunks : List Chunk) : Nat :=
  chunks.countP fun c => c.passes filter referential = .ok false

/-- The chunks of a list that the filter lets pass and that have no triangles. -/
def empty (filter : ChunkFilter) (referential : Coord) (chunks : List Chunk) : Nat :=
  chunks.countP fun c => c.IsSkipped filter referential

/-- The chunks of a list that are drawn, in their order. -/
def drawn (filter : ChunkFilter) (referential : Coord) (chunks : List Chunk) : List Chunk :=
  chunks.filter fun c => c.IsDrawn filter referential

/-- What the three say of one more chunk that the filter keeps out. -/
theorem split_cons_of_filtered (h : c.passes filter referential = .ok false)
    (chunks : List Chunk) :
    filtered filter referential (c :: chunks) = filtered filter referential chunks + 1 ∧
      empty filter referential (c :: chunks) = empty filter referential chunks ∧
      drawn filter referential (c :: chunks) = drawn filter referential chunks := by
  simp [filtered, empty, drawn, Chunk.IsSkipped, Chunk.IsDrawn, h]

/-- What the three say of one more chunk without triangles. -/
theorem split_cons_of_isSkipped (h : c.IsSkipped filter referential) (chunks : List Chunk) :
    filtered filter referential (c :: chunks) = filtered filter referential chunks ∧
      empty filter referential (c :: chunks) = empty filter referential chunks + 1 ∧
      drawn filter referential (c :: chunks) = drawn filter referential chunks := by
  simp [filtered, empty, drawn, h, Chunk.IsDrawn, h.1, h.2]

/-- What the three say of one more chunk to draw. -/
theorem split_cons_of_isDrawn (h : c.IsDrawn filter referential) (chunks : List Chunk) :
    filtered filter referential (c :: chunks) = filtered filter referential chunks ∧
      empty filter referential (c :: chunks) = empty filter referential chunks ∧
      drawn filter referential (c :: chunks) = c :: drawn filter referential chunks := by
  simp [filtered, empty, drawn, h, Chunk.IsSkipped, h.1, h.2]

/-- No chunk is counted twice and none is left out. -/
theorem filtered_add_empty_add_drawn (h : ∀ c ∈ chunks, ¬ c.Overflows filter referential) :
    filtered filter referential chunks + empty filter referential chunks +
      (drawn filter referential chunks).length = chunks.length := by
  induction chunks with
  | nil => rfl
  | cons c rest ih =>
    obtain ⟨hc, hrest⟩ := List.forall_mem_cons.1 h
    have hlen := ih hrest
    rcases Chunk.filtered_or_isSkipped_or_isDrawn hc with hc | hc | hc
    · obtain ⟨hf, he, hd⟩ := split_cons_of_filtered hc rest
      rw [hf, he, hd, List.length_cons]
      omega
    · obtain ⟨hf, he, hd⟩ := split_cons_of_isSkipped hc rest
      rw [hf, he, hd, List.length_cons]
      omega
    · obtain ⟨hf, he, hd⟩ := split_cons_of_isDrawn hc rest
      rw [hf, he, hd, List.length_cons, List.length_cons]
      omega

/-- A level is the performance of its script: the bind, if it has a draw, and the draws. -/
theorem drawLevel_eq (h : ∀ c ∈ chunks, ¬ c.Overflows filter referential) (bound : Bool) :
    drawLevel P filter referential lod bound f chunks =
      .ok ((f.perform P (opening lod bound (drawn filter referential chunks) ++
        (drawn filter referential chunks).map (Chunk.request referential))).skip
          (filtered filter referential chunks) (empty filter referential chunks)) := by
  induction chunks generalizing f bound with
  | nil => cases bound <;> rfl
  | cons c rest ih =>
    obtain ⟨hc, hrest⟩ := List.forall_mem_cons.1 h
    rcases Chunk.filtered_or_isSkipped_or_isDrawn hc with hc | hc | hc
    · obtain ⟨hf, he, hd⟩ := split_cons_of_filtered hc rest
      rw [drawLevel_cons hc, if_pos rfl, ih hrest, perform_skip, skip_skip, hf, he, hd,
        Nat.zero_add, Nat.add_comm 1]
    · obtain ⟨hf, he, hd⟩ := split_cons_of_isSkipped hc rest
      rw [drawLevel_cons hc.1, if_neg (by decide), if_pos hc.2, ih hrest, perform_skip, skip_skip,
        hf, he, hd, Nat.zero_add, Nat.add_comm 1]
    · obtain ⟨hf, he, hd⟩ := split_cons_of_isDrawn hc rest
      have hfirst : (f.bindOnce P lod bound).perform P
          ((c :: drawn filter referential rest).map (Chunk.request referential)) =
            ((f.bindOnce P lod bound).perform P [c.request referential]).perform P
              (opening lod true (drawn filter referential rest) ++
                (drawn filter referential rest).map (Chunk.request referential)) :=
        perform_append _ [_] _
      rw [drawLevel_cons hc.1, if_neg (by decide), if_neg (by simp [hc.2]), ih hrest, hf, he, hd,
        perform_append _ (opening lod bound _), perform_opening_cons, hfirst]

/-! ## All levels -/

/-- The levels with something to draw, each with the chunks to draw. -/
def batches (filter : ChunkFilter) (referential : Coord) (levels : List (UInt32 × List Chunk)) :
    List (UInt32 × List Chunk) :=
  (levels.map fun l => (l.1, drawn filter referential l.2)).filter fun b => !b.2.isEmpty

/-- What is asked for a batch: the material of its level, then its draws. -/
def script (referential : Coord) (batch : UInt32 × List Chunk) : List Painter.Request :=
  .bind batch.1 :: batch.2.map (Chunk.request referential)

/-- What one more level adds to the script. -/
theorem flatMap_script_batches_cons :
    (batches filter referential ((lod, chunks) :: levels)).flatMap (script referential) =
      opening lod false (drawn filter referential chunks) ++
        (drawn filter referential chunks).map (Chunk.request referential) ++
          (batches filter referential levels).flatMap (script referential) := by
  unfold batches opening
  cases hd : drawn filter referential chunks with
  | nil => simp [hd]
  | cons c rest => simp [hd, script]

/-- A frame is the performance of the scripts of its batches. -/
theorem drawLevels_eq (h : ∀ c ∈ levels.flatMap Prod.snd, ¬ c.Overflows filter referential) :
    drawLevels P filter referential f levels =
      .ok ((f.perform P ((batches filter referential levels).flatMap (script referential))).skip
        (filtered filter referential (levels.flatMap Prod.snd))
        (empty filter referential (levels.flatMap Prod.snd))) := by
  induction levels generalizing f with
  | nil => rfl
  | cons l rest ih =>
    obtain ⟨lod, chunks⟩ := l
    rw [List.flatMap_cons] at h
    obtain ⟨hl, hrest⟩ := List.forall_mem_append.1 h
    rw [drawLevels, drawLevel_eq hl]
    show drawLevels P filter referential _ rest = _
    rw [ih hrest, perform_skip, skip_skip, ← perform_append, flatMap_script_batches_cons]
    simp only [filtered, empty, List.flatMap_cons, List.countP_append]

/-- The batches have the chunks to draw of all levels, in their order. -/
theorem flatMap_batches : (batches filter referential levels).flatMap Prod.snd =
    drawn filter referential (levels.flatMap Prod.snd) := by
  induction levels with
  | nil => rfl
  | cons l rest ih =>
    rw [List.flatMap_cons, drawn, List.filter_append, ← drawn, ← drawn, ← ih]
    unfold batches
    cases hd : drawn filter referential l.2 with
    | nil => simp [hd]
    | cons c chunks => simp [hd]

/-- A batch has the chunks of a level that are drawn, if there are any. -/
theorem mem_batches {b : UInt32 × List Chunk} : b ∈ batches filter referential levels ↔
    b.2 ≠ [] ∧ ∃ l ∈ levels, l.1 = b.1 ∧ drawn filter referential l.2 = b.2 := by
  simp [batches, Prod.ext_iff, and_comm]

/-- The levels of the batches are some of the levels, in their order. -/
theorem map_fst_batches_sublist :
    ((batches filter referential levels).map Prod.fst).Sublist (levels.map Prod.fst) := by
  have hmap : levels.map Prod.fst =
      (levels.map fun l => (l.1, drawn filter referential l.2)).map Prod.fst := by
    simp
  rw [hmap]
  exact List.filter_sublist.map Prod.fst

/-! ## Leaving the words -/

/-- A level with a chunk that overflows fails. -/
theorem drawLevel_eq_error (h : ∃ c ∈ chunks, c.Overflows filter referential) (bound : Bool) :
    drawLevel P filter referential lod bound f chunks = .error .overflow := by
  induction chunks generalizing f bound with
  | nil =>
    obtain ⟨c, hc, -⟩ := h
    cases hc
  | cons c rest ih =>
    by_cases hc : c.Overflows filter referential
    · exact drawLevel_cons_error (Chunk.passes_eq_error_iff.2 ⟨rfl, hc⟩) bound
    · have hrest : ∃ d ∈ rest, d.Overflows filter referential := by
        obtain ⟨d, hd, hover⟩ := h
        rcases List.mem_cons.1 hd with rfl | hd
        · exact absurd hover hc
        · exact ⟨d, hd, hover⟩
      obtain ⟨b, hb⟩ := Chunk.exists_passes_eq_ok hc
      rw [drawLevel_cons hb]
      split
      · exact ih hrest bound
      · split
        · exact ih hrest bound
        · exact ih hrest true

/-- A frame with a chunk that overflows fails. -/
theorem drawLevels_eq_error (h : ∃ c ∈ levels.flatMap Prod.snd, c.Overflows filter referential) :
    drawLevels P filter referential f levels = .error .overflow := by
  induction levels generalizing f with
  | nil =>
    obtain ⟨c, hc, -⟩ := h
    cases hc
  | cons l rest ih =>
    by_cases hl : ∃ c ∈ l.2, c.Overflows filter referential
    · rw [drawLevels, drawLevel_eq_error hl]
      rfl
    · push Not at hl
      rw [drawLevels, drawLevel_eq hl]
      refine ih ?_
      obtain ⟨c, hc, hover⟩ := h
      rw [List.flatMap_cons, List.mem_append] at hc
      exact ⟨c, hc.resolve_left fun hcl => hl c hcl hover, hover⟩

/-- A frame leaves the words if and only if one of its chunks does. -/
theorem drawLevels_eq_error_iff {e : Fault} : drawLevels P filter referential f levels = .error e ↔
    e = .overflow ∧ ∃ c ∈ levels.flatMap Prod.snd, c.Overflows filter referential := by
  by_cases h : ∃ c ∈ levels.flatMap Prod.snd, c.Overflows filter referential
  · rw [drawLevels_eq_error h]
    constructor
    · intro he
      injection he with he
      exact ⟨he.symm, h⟩
    · rintro ⟨rfl, -⟩
      rfl
  · have hall := h
    push Not at hall
    rw [drawLevels_eq hall]
    constructor
    · intro he
      cases he
    · rintro ⟨-, hover⟩
      exact absurd hover h

/-! ## Counting requests -/

/-- A script asks for the material once and for a draw of each chunk. -/
theorem countP_script (referential : Coord) (batch : UInt32 × List Chunk) :
    (script referential batch).countP Painter.Request.isBind = 1 ∧
      (script referential batch).countP Painter.Request.isDraw = batch.2.length := by
  have hbinds : (batch.2.map (Chunk.request referential)).countP Painter.Request.isBind = 0 := by
    rw [List.countP_map]
    exact List.countP_eq_zero.2 fun c _ => Bool.false_ne_true
  have hdraws : (batch.2.map (Chunk.request referential)).countP Painter.Request.isDraw =
      batch.2.length := by
    rw [List.countP_map]
    exact List.countP_eq_length.2 fun c _ => rfl
  rw [script, List.countP_cons_of_pos rfl, hbinds, List.countP_cons_of_neg Bool.false_ne_true,
    hdraws]
  exact ⟨rfl, rfl⟩

/-- The scripts of batches ask for as many materials as there are batches. -/
theorem countP_scripts (referential : Coord) (batches : List (UInt32 × List Chunk)) :
    (batches.flatMap (script referential)).countP Painter.Request.isBind = batches.length ∧
      (batches.flatMap (script referential)).countP Painter.Request.isDraw =
        (batches.flatMap Prod.snd).length := by
  induction batches with
  | nil => exact ⟨rfl, rfl⟩
  | cons b rest ih =>
    obtain ⟨hbind, hdraws⟩ := countP_script referential b
    rw [List.flatMap_cons, List.flatMap_cons, List.countP_append, List.countP_append,
      List.length_append, List.length_cons, hbind, hdraws, ih.1, ih.2]
    exact ⟨Nat.add_comm 1 _, rfl⟩

/-- The frame has put the requests to a painter, one after the other, that was in state `p`: its
painter is as they leave it, and its figures are the numbers of the answers. -/
structure Performs (P : Painter π) (p : π) (requests : List Painter.Request) (f : Frame π) :
    Prop where
  painter_eq : f.painter = (Dialogue.run P.answer p requests).2
  binds_eq : f.stats.binds = (Dialogue.run P.answer p requests).1.countP Painter.Answer.isBound
  draws_eq : f.stats.draws = (Dialogue.run P.answer p requests).1.countP Painter.Answer.isDrawn
  failed_eq : f.stats.failed = (Dialogue.run P.answer p requests).1.countP Painter.Answer.isRefused

/-- Of a frame that has performed the scripts of batches the figures are the numbers of the batches
and of their chunks. -/
theorem Performs.figures {p : π} {batches : List (UInt32 × List Chunk)}
    (h : Performs P p (batches.flatMap (script referential)) f) :
    f.stats.binds = batches.length ∧
      f.stats.draws + f.stats.failed = (batches.flatMap Prod.snd).length := by
  obtain ⟨hbound, hanswered⟩ := P.countP_answers p (batches.flatMap (script referential))
  obtain ⟨hbinds, hdraws⟩ := countP_scripts referential batches
  rw [h.binds_eq, h.draws_eq, h.failed_eq, hbound, hanswered]
  exact ⟨hbinds, hdraws⟩

/-- A frame that starts with no figures and stays in the words performs the scripts of its batches
and counts the chunks that it does not draw. -/
theorem exists_drawLevels_eq
    (h : ∀ c ∈ levels.flatMap Prod.snd, ¬ c.Overflows filter referential) (P : Painter π) (p : π) :
    ∃ f, drawLevels P filter referential ⟨{}, p⟩ levels = .ok f ∧
      Performs P p ((batches filter referential levels).flatMap (script referential)) f ∧
      f.stats.filtered = filtered filter referential (levels.flatMap Prod.snd) ∧
      f.stats.empty = empty filter referential (levels.flatMap Prod.snd) :=
  ⟨_, drawLevels_eq h, ⟨rfl, Nat.zero_add _, Nat.zero_add _, Nat.zero_add _⟩, Nat.zero_add _,
    Nat.zero_add _⟩

end Frame

/-! ## Frames of the retained set -/

namespace Retained

variable {r : Retained} {filter : ChunkFilter} {referential : Coord}
  {levels : List (UInt32 × List Chunk)}

/-- The chunks that a frame goes through are the retained ones. -/
theorem Order.mem_iff (ho : r.Order levels) {c : Chunk} :
    c ∈ levels.flatMap Prod.snd ↔ ∃ n, r.chunkOf n = some c := by
  rw [ho.perm_chunks.mem_iff, mem_chunks]

/-- A frame accounts for every retained chunk, in whatever order it takes the chunks of a level. It
comes in batches, one for each level with something to draw, from the coarsest to the finest, and
every chunk with triangles that the filter lets pass is in exactly one of them, that of its own
level. Which batches these are does not depend on the painter. -/
theorem frame_accounts (hr : r.Built) (ho : r.Order levels)
    (hin : ∀ n c, r.chunkOf n = some c → ¬ c.Overflows filter referential) :
    ∃ batches : List (UInt32 × List Chunk),
      (batches.map Prod.fst).Pairwise (· > ·) ∧
      (∀ b ∈ batches, b.2 ≠ [] ∧ ∀ c ∈ b.2, c.lod = b.1) ∧
      (batches.flatMap Prod.snd).Nodup ∧
      (∀ c, c ∈ batches.flatMap Prod.snd ↔ r.chunkOf c.node = some c ∧
        c.passes filter referential = .ok true ∧ c.geometry.isEmpty = false) ∧
      (∀ c ∈ batches.flatMap Prod.snd,
        c.origin.sub referential = .ok (c.origin.minus referential) ∧ c.size = .ok c.node.edge) ∧
      ∀ {π : Type} (P : Painter π) (p : π), ∃ f,
        Frame.drawLevels P filter referential ⟨{}, p⟩ levels = .ok f ∧
        Frame.Performs P p (batches.flatMap (Frame.script referential)) f ∧
        f.stats.binds = batches.length ∧
        f.stats.draws + f.stats.failed = (batches.flatMap Prod.snd).length ∧
        f.stats.draws + f.stats.failed + f.stats.filtered + f.stats.empty = r.count := by
  have hperm := ho.perm_chunks
  have hlevels : ∀ c ∈ levels.flatMap Prod.snd, ¬ c.Overflows filter referential := by
    intro c hc
    obtain ⟨n, hn⟩ := ho.mem_iff.1 hc
    exact hin n c hn
  have hmem : ∀ c, c ∈ (Frame.batches filter referential levels).flatMap Prod.snd ↔
      r.chunkOf c.node = some c ∧ c.IsDrawn filter referential := by
    intro c
    rw [Frame.flatMap_batches, Frame.drawn, List.mem_filter, hperm.mem_iff, hr.mem_chunks,
      decide_eq_true_iff]
  refine ⟨Frame.batches filter referential levels, ?descends, ?own, ?once, hmem, ?exact, ?frame⟩
  case descends => exact ho.pairwise.sublist Frame.map_fst_batches_sublist
  case own =>
    intro b hb
    obtain ⟨hne, l, hl, hlod, hdrawn⟩ := Frame.mem_batches.1 hb
    refine ⟨hne, fun c hc => ?_⟩
    rw [← hdrawn] at hc
    rw [← hlod]
    exact ho.lod_eq hr hl (List.mem_of_mem_filter hc)
  case once =>
    rw [Frame.flatMap_batches]
    exact (hperm.nodup_iff.2 hr.nodup_chunks).filter _
  case exact =>
    intro c hc
    obtain ⟨hsub, hsize, -⟩ := Chunk.passes_eq_ok ((hmem c).1 hc).2.1
    exact ⟨hsub, hsize⟩
  case frame =>
    intro π P p
    obtain ⟨f, hf, hperforms, hfiltered, hempty⟩ := Frame.exists_drawLevels_eq hlevels P p
    obtain ⟨hbinds, hsubmitted⟩ := hperforms.figures
    refine ⟨f, hf, hperforms, hbinds, hsubmitted, ?_⟩
    have hsum := Frame.filtered_add_empty_add_drawn hlevels
    rw [← Frame.flatMap_batches, hperm.length_eq, length_chunks] at hsum
    rw [hsubmitted, hfiltered, hempty, ← hsum]
    omega

/-- A chunk with triangles, one without and a coarse one. -/
def mixed : Retained := empty.add
  [⟨.leaf .zero, ⟨#[], #[0, 0, 0]⟩⟩, ⟨.leaf ⟨3, 0, 0⟩, .empty⟩, ⟨⟨⟨0, -2, 0⟩, 1⟩, ⟨#[], #[0, 0, 0]⟩⟩]

/-- A painter that writes down its requests and refuses the first draw. -/
def reluctant : Painter (List Painter.Request) where
  bind lod log := log ++ [.bind lod]
  draw geometry model log :=
    (if log.any Painter.Request.isDraw then .ok () else .error (.backend "not ready"),
      log ++ [.draw geometry model])

/-- Of three chunks, two levels and one chunk without triangles, two draws are asked for, each after
the bind of its level, and one of them is refused. The layer at the origin of the world keeps out
one of the chunks. -/
theorem frame_accounts_mixed :
    (∃ (f : Frame (List Painter.Request)) (batches : List (UInt32 × List Chunk)),
      mixed.render reluctant .all .zero [] = .ok f ∧
      Frame.Performs reluctant [] (batches.flatMap (Frame.script .zero)) f ∧
      f.painter.map Painter.Request.isBind = [true, false, true, false] ∧
      f.stats = { binds := 2, draws := 1, empty := 1, failed := 1 } ∧
      batches.length = 2 ∧ (batches.flatMap Prod.snd).length = 2 ∧
      f.stats.draws + f.stats.failed + f.stats.filtered + f.stats.empty = mixed.count) ∧
    ∃ (f : Frame (List Painter.Request)) (batches : List (UInt32 × List Chunk)),
      mixed.render reluctant (.layer 0) .zero [] = .ok f ∧
      Frame.Performs reluctant [] (batches.flatMap (Frame.script .zero)) f ∧
      f.stats = { binds := 1, filtered := 1, empty := 1, failed := 1 } ∧
      batches.length = 1 ∧ (batches.flatMap Prod.snd).length = 1 ∧
      f.stats.draws + f.stats.failed + f.stats.filtered + f.stats.empty = mixed.count := by
  have hframe (filter : ChunkFilter)
      (hall : ∀ c ∈ mixed.chunks, c.passes filter .zero ≠ .error .overflow) :
      ∃ (f : Frame (List Painter.Request)) (batches : List (UInt32 × List Chunk)),
        mixed.render reluctant filter .zero [] = .ok f ∧
        Frame.Performs reluctant [] (batches.flatMap (Frame.script .zero)) f ∧
        f.stats.binds = batches.length ∧
        f.stats.draws + f.stats.failed = (batches.flatMap Prod.snd).length ∧
        f.stats.draws + f.stats.failed + f.stats.filtered + f.stats.empty = mixed.count := by
    have hin : ∀ n c, mixed.chunkOf n = some c → ¬ c.Overflows filter .zero := fun n c hc hover =>
      hall c (mem_chunks.2 ⟨n, hc⟩) (Chunk.passes_eq_error_iff.2 ⟨rfl, hover⟩)
    obtain ⟨batches, -, -, -, -, -, hframe⟩ :=
      frame_accounts (.add .empty _) mixed.order_reverse_levels hin
    obtain ⟨f, hf, hfigures⟩ := hframe reluctant []
    exact ⟨f, batches, hf, hfigures⟩
  constructor
  · obtain ⟨f, batches, hf, hperforms, hbinds, hsubmitted, htotal⟩ :=
      hframe .all (by decide +kernel)
    have hseen : (mixed.render reluctant .all .zero []).toOption.map (fun f =>
        (f.painter.map Painter.Request.isBind, f.stats)) =
          some ([true, false, true, false], { binds := 2, draws := 1, empty := 1, failed := 1 }) := by
      decide +kernel
    rw [hf] at hseen
    obtain ⟨hlog, hstats⟩ := Prod.mk.inj (Option.some.inj hseen)
    rw [hstats] at hbinds hsubmitted
    exact ⟨f, batches, hf, hperforms, hlog, hstats, hbinds.symm, hsubmitted.symm, htotal⟩
  · obtain ⟨f, batches, hf, hperforms, hbinds, hsubmitted, htotal⟩ :=
      hframe (.layer 0) (by decide +kernel)
    have hseen : (mixed.render reluctant (.layer 0) .zero []).toOption.map (·.stats) =
        some { binds := 1, filtered := 1, empty := 1, failed := 1 } := by
      decide +kernel
    rw [hf] at hseen
    have hstats : f.stats = { binds := 1, filtered := 1, empty := 1, failed := 1 } :=
      Option.some.inj hseen
    rw [hstats] at hbinds hsubmitted
    exact ⟨f, batches, hf, hperforms, hstats, hbinds.symm, hsubmitted.symm, htotal⟩

/-- A frame leaves the words if and only if the offset, the size or the end of some retained chunk
does, whatever the order and the painter. So none does that shows chunks of a tree from a
referential `2 ^ 23 + 1` away from the ends of the words, and a layer then keeps the chunks that it
goes through. -/
theorem frame_overflows (ho : r.Order levels) (filter : ChunkFilter) (referential : Coord) :
    (∀ {π : Type} (P : Painter π) (p : π) (e : Fault),
      Frame.drawLevels P filter referential ⟨{}, p⟩ levels = .error e ↔
        e = .overflow ∧ ∃ n c, r.chunkOf n = some c ∧ c.Overflows filter referential) ∧
    ∀ t : Tree, (∀ n c, r.chunkOf n = some c → c.node.Within t.root) →
      (∀ a, |referential.along a| ≤ 2 ^ 31 - 2 ^ 23 - 1) →
        (∀ {π : Type} (P : Painter π) (p : π), ∃ f,
          Frame.drawLevels P filter referential ⟨{}, p⟩ levels = .ok f ∧
          ∀ y, filter = .layer y →
            f.stats.filtered = r.chunks.countP fun c => ¬ c.Meets referential y) ∧
        ∀ y, filter = .layer y → ∀ n c, r.chunkOf n = some c →
          c.passes filter referential = .ok (decide (c.Meets referential y)) := by
  refine ⟨fun P p e => ?_, fun t ht href => ?_⟩
  · rw [Frame.drawLevels_eq_error_iff]
    refine and_congr_right fun _ => ⟨?_, ?_⟩
    · rintro ⟨c, hc, hover⟩
      obtain ⟨n, hn⟩ := ho.mem_iff.1 hc
      exact ⟨n, c, hn, hover⟩
    · rintro ⟨n, c, hn, hover⟩
      exact ⟨c, ho.mem_iff.2 ⟨n, hn⟩, hover⟩
  · have hin : ∀ c ∈ levels.flatMap Prod.snd, ¬ c.Overflows filter referential := by
      intro c hc
      obtain ⟨n, hn⟩ := ho.mem_iff.1 hc
      exact Chunk.not_overflows (ht n c hn) href
    have hpasses : ∀ y, filter = .layer y → ∀ n c, r.chunkOf n = some c →
        c.passes filter referential = .ok (decide (c.Meets referential y)) := by
      rintro y rfl n c hc
      exact Chunk.passes_layer (ht n c hc) href
    refine ⟨fun P p => ?_, hpasses⟩
    obtain ⟨f, hf, -, hfiltered, -⟩ := Frame.exists_drawLevels_eq hin P p
    refine ⟨f, hf, fun y hy => ?_⟩
    rw [hfiltered, Frame.filtered, ho.perm_chunks.countP_eq]
    refine List.countP_congr fun c hc => ?_
    obtain ⟨n, hn⟩ := mem_chunks.1 hc
    rw [hpasses y hy n c hn]
    simp

/-- The referentials at the bounds are safe, and the layer found from there is that of the coarse
chunk. The ends of the words are too far away. -/
theorem frame_overflows_mixed :
    (∃ f, mixed.render Recorder.painter (.layer (-2139095040)) ⟨-2139095039, 2139095039, 0⟩ .empty =
      .ok f ∧ f.stats.filtered = 2) ∧
    mixed.render Recorder.painter .all ⟨-2147483648, 0, 0⟩ .empty = .error .overflow := by
  have hchunks : ∀ n c, mixed.chunkOf n = some c → c ∈ mixed.chunks :=
    fun n c hc => mem_chunks.2 ⟨n, hc⟩
  constructor
  · have hbounds : ∀ c ∈ mixed.chunks, ∀ a ∈ [Axis.x, .y, .z],
        -4 ≤ c.origin.along a ∧ c.origin.along a + 2 ^ c.lod.toNat ≤ 4 := by decide +kernel
    have hwithin : ∀ n c, mixed.chunkOf n = some c →
        c.node.Within (Tree.root ⟨3, by decide, by decide⟩) := by
      intro n c hc p hp
      refine Tree.root_covers_iff.2 fun a => ?_
      have hca : -4 ≤ c.node.origin.along a ∧ c.node.origin.along a + 2 ^ c.node.level.toNat ≤ 4 :=
        hbounds c (hchunks n c hc) a (by cases a <;> decide)
      have hpa := hp a
      show -4 ≤ p a ∧ p a < 4
      omega
    have hfar : ∀ a, |(⟨-2139095039, 2139095039, 0⟩ : Coord).along a| ≤ 2 ^ 31 - 2 ^ 23 - 1 := by
      intro a
      cases a <;> decide
    obtain ⟨hframe, -⟩ := (frame_overflows mixed.order_reverse_levels (.layer (-2139095040)) _).2
      ⟨3, by decide, by decide⟩ hwithin hfar
    obtain ⟨f, hf, hfiltered⟩ := hframe Recorder.painter .empty
    exact ⟨f, hf, (hfiltered _ rfl).trans (by decide +kernel)⟩
  · refine ((frame_overflows mixed.order_reverse_levels _ _).1 _ _ .overflow).2 ⟨rfl, ?_⟩
    refine ⟨.leaf .zero, ⟨.leaf .zero, ⟨#[], #[0, 0, 0]⟩⟩, by decide +kernel, .inl ⟨.x, ?_⟩⟩
    decide

end Retained
end VoxelStream
