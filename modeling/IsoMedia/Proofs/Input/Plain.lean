import IsoMedia.Proofs.Input.Block

/-!
# An input and a reader without a block

A `PlainReader` is a run of bytes and a place in it, and nothing else.  An input over a source that
answers every request is one to whoever calls it, however few bytes the source hands over at a time
and however the calls are mixed: what is left of the block never shows.

* `Input.Plays` : the input has the bytes and the position of the reader.
* `Input.plays_call` : every call is answered alike, and keeps it so.
* `Input.run_eq_plain` : so is every sequence of calls on a new input.

The calls go to places that can be numbered.  Places counted from the one where the source is are
left out: the source is ahead of the input by what is left of the block.
-/

namespace IsoMedia

namespace Input

/-- A call of a reader. -/
inductive Call where
  | readExact (wanted : Nat)
  | readAll
  | seek (target : Target)
  | seekTo (place : Nat)
  | position
deriving DecidableEq

/-- What comes of a call. -/
inductive Answer where
  | bytes (outcome : Except Error ByteArray)
  | place (outcome : Except Error Nat)
  /-- Whether the source was asked to go elsewhere. -/
  | moved (outcome : Except Error Bool)

/-- The call names no target but places of a source of the given size that can be numbered. -/
def Call.Lands (size : Nat) : Call → Prop
  | .seek (.start n) | .seekTo n => (n : Int) < Source.placeBound
  | .seek (.stop d) => 0 ≤ size + d ∧ size + d < Source.placeBound
  | .seek (.current _) => False
  | .readExact _ | .readAll | .position => True

instance (size : Nat) : (c : Call) → Decidable (c.Lands size)
  | .seek (.start n) | .seekTo n => inferInstanceAs (Decidable ((n : Int) < Source.placeBound))
  | .seek (.stop d) =>
    inferInstanceAs (Decidable (0 ≤ size + d ∧ size + d < Source.placeBound))
  | .seek (.current _) => inferInstanceAs (Decidable False)
  | .readExact _ | .readAll | .position => inferInstanceAs (Decidable True)

def call (i : Input) : Call → Answer × Input
  | .readExact wanted => (i.readExact wanted).map .bytes id
  | .readAll => i.readAll.map .bytes id
  | .seek target => (i.seek target).map .place id
  | .seekTo place => (i.seekTo place).map .moved id
  | .position => i.tell.map .place id

/-- The answers to calls one after the other, and the input behind them. -/
def run (i : Input) : List Call → List Answer × Input
  | [] => ([], i)
  | c :: calls => ((i.call c).2.run calls).map ((i.call c).1 :: ·) id

end Input

/-- A run of bytes and the place of the next one. -/
structure PlainReader where
  content : ByteArray
  pos : Nat

namespace PlainReader

/-- Where a target lies. -/
def aim (r : PlainReader) : Target → Int
  | .start n => n
  | .current d => r.pos + d
  | .stop d => r.content.size + d

/-- A read that asks for more than there is ends at the end of the bytes, or stays where it is
beyond it. -/
def call (r : PlainReader) : Input.Call → Input.Answer × PlainReader
  | .readExact wanted =>
    if wanted ≤ r.content.size - r.pos then
      (.bytes (.ok (r.content.extract r.pos (r.pos + wanted))), { r with pos := r.pos + wanted })
    else (.bytes (.error .endOfStream), { r with pos := max r.pos r.content.size })
  | .readAll => (.bytes (.ok r.content), { r with pos := r.content.size })
  | .seek target => (.place (.ok (r.aim target).toNat), { r with pos := (r.aim target).toNat })
  | .seekTo place => (.moved (.ok (r.pos ≠ place)), { r with pos := place })
  | .position => (.place (.ok r.pos), r)

/-- The answers to calls one after the other, and the reader behind them. -/
def run (r : PlainReader) : List Input.Call → List Input.Answer × PlainReader
  | [] => ([], r)
  | c :: calls => ((r.call c).2.run calls).map ((r.call c).1 :: ·) id

theorem content_call (r : PlainReader) (c : Input.Call) : (r.call c).2.content = r.content := by
  cases c with
  | readExact wanted =>
    simp only [call]
    split <;> rfl
  | _ => rfl

end PlainReader

theorem Source.Obliging.seek_eq_ok {s : Source} (h : s.Obliging) (target : Target)
    (hlo : 0 ≤ s.aim target) (hhi : s.aim target < Source.placeBound) :
    ∃ s', s.seek target = (.ok (s.aim target).toNat, s') ∧ s'.pos = (s.aim target).toNat := by
  unfold Source.seek
  rw [h.seeks]
  dsimp only
  rw [if_pos ⟨hlo, hhi⟩]
  exact ⟨_, rfl, rfl⟩

namespace Input

/-! ### Reads beyond the end -/

/-- A read that wants more than there is takes everything up to the end. -/
theorem readFrom_of_short (wanted : Nat) (got : ByteArray) {i : Input} (hi : i.InRange)
    (ho : i.source.Obliging)
    (hshort : i.ahead + (i.source.content.size - i.source.pos) < wanted) :
    ∃ i', readFrom wanted got i = (.error .endOfStream, i') ∧
      i'.position = max i.source.pos i.source.content.size := by
  fun_induction readFrom wanted got i with
  | case1 got i => omega
  | case2 wanted got i hw ha n ih =>
    obtain ⟨hrange, hahead, -⟩ := hi.take (n := n) (Nat.min_le_left _ _)
    have hn : n = min i.ahead wanted := rfl
    refine ih hrange ho ?_
    rw [hahead]
    dsimp only
    omega
  | case3 wanted got i hw ha hbig e source hread =>
    exact absurd hread (ho.read_ne_error (Nat.pos_of_ne_zero hw))
  | case4 wanted got i hw ha hbig piece source hread hpiece =>
    have hend := ho.size_le_pos (Nat.pos_of_ne_zero hw) hread hpiece
    obtain ⟨-, hpos, -, -⟩ := Source.read_of_ok hread
    have hposition := position_move (by omega) hpos
    have := position_of_used_up (i := i) (by omega)
    exact ⟨_, rfl, by omega⟩
  | case5 wanted got i hw ha hbig piece source hread hpiece ih =>
    obtain ⟨hsource, -⟩ := Source.read_eq_ok hread
    obtain ⟨-, hpos, hle, hin⟩ := Source.read_of_ok hread
    have hend := hin hpiece
    have hahead : ahead { i with source } = i.ahead := rfl
    obtain ⟨i', hread', hposition⟩ := ih (hi.move hpos) (ho.of_same hsource) (by
      rw [hahead]
      dsimp only
      rw [hsource.content]
      omega)
    dsimp only at hposition
    rw [hsource.content] at hposition
    exact ⟨i', hread', by omega⟩
  | case6 wanted got i hw ha hsmall e source hread =>
    exact absurd hread (ho.read_ne_error (show 0 < blockSize by decide))
  | case7 wanted got i hw ha hsmall piece source hread hpiece =>
    have hend := ho.size_le_pos (show 0 < blockSize by decide) hread hpiece
    obtain ⟨-, -, hposition⟩ := fill_spec (by omega) hread
    have := position_of_used_up (i := i) (by omega)
    exact ⟨_, rfl, by omega⟩
  | case8 wanted got i hw ha hsmall piece source hread hpiece ih =>
    obtain ⟨hsource, -⟩ := Source.read_eq_ok hread
    obtain ⟨-, hpos, -, hin⟩ := Source.read_of_ok hread
    obtain ⟨-, hnew, -⟩ := fill_spec (by omega) hread
    have hend := hin hpiece
    have hahead : ahead ⟨source, piece, 0⟩ = piece.size := rfl
    obtain ⟨i', hread', hposition⟩ := ih hnew.toInRange (ho.of_same hsource) (by
      rw [hahead]
      dsimp only
      rw [hsource.content]
      omega)
    dsimp only at hposition
    rw [hsource.content] at hposition
    exact ⟨i', hread', by omega⟩

theorem pos_drain {source : Source} (ho : source.Obliging) (got : ByteArray)
    (hp : source.pos ≤ source.content.size) :
    (drain source got).2.pos = source.content.size := by
  fun_induction drain source got with
  | case1 source got e source' hread =>
    exact absurd hread (ho.read_ne_error (show 0 < blockSize by decide))
  | case2 source got piece source' hread hpiece =>
    have hend := ho.size_le_pos (show 0 < blockSize by decide) hread hpiece
    obtain ⟨-, hpos, -, -⟩ := Source.read_of_ok hread
    exact show source'.pos = _ by omega
  | case3 source got piece source' hread hpiece ih =>
    obtain ⟨hsource, -⟩ := Source.read_eq_ok hread
    obtain ⟨-, -, -, hin⟩ := Source.read_of_ok hread
    rw [ih (ho.of_same hsource) (by rw [hsource.content]; exact hin hpiece), hsource.content]

/-- After everything was read the input is behind the last byte. -/
theorem position_readAll {i : Input} (ho : i.source.Obliging) :
    i.readAll.2.position = i.source.content.size := by
  obtain ⟨source, hseek, hpos⟩ :=
    ho.seek_eq_ok (.start 0) (Int.le_refl 0) (show (0 : Int) < _ by decide)
  have hsame := i.source.seek_same (.start 0)
  rw [hseek] at hsame
  have hdrained := pos_drain (ho.of_same hsame) .empty (by
    rw [hpos]
    exact Nat.zero_le _)
  rw [hsame.content] at hdrained
  simp only [readAll, Input.seek, hseek]
  exact (position_of_used_up rfl).trans hdrained

/-- What is left of a block lies within the bytes of the source. -/
theorem Fresh.pos_le {i : Input} (h : i.Fresh) (ha : 0 < i.ahead) :
    i.source.pos ≤ i.source.content.size := by
  have hblock := congrArg ByteArray.size (h.anchored ha)
  have := h.block_le
  rw [ByteArray.size_extract] at hblock
  unfold ahead at ha
  omega

/-! ### Calls -/

/-- The input has the bytes and the position of the reader, and its source answers every request. -/
structure Plays (i : Input) (r : PlainReader) : Prop where
  fresh : i.Fresh
  obliging : i.source.Obliging
  content : i.source.content = r.content
  position : i.position = r.pos

theorem plays_start {source : Source} (ho : source.Obliging) :
    Plays ⟨source, .empty, 0⟩ ⟨source.content, source.pos⟩ :=
  ⟨fresh_of_empty, ho, rfl, rfl⟩

variable {i : Input} {r : PlainReader}

/-- Only the position moves. -/
theorem Plays.moved (h : i.Plays r) {i' : Input} (hsame : i.source.Same i'.source)
    (hfresh : i'.Fresh) {pos : Nat} (hpos : i'.position = pos) : i'.Plays { r with pos } :=
  ⟨hfresh, h.obliging.of_same hsame, hsame.content.trans h.content, hpos⟩

theorem plays_readExact (h : i.Plays r) (wanted : Nat) :
    (i.call (.readExact wanted)).1 = (r.call (.readExact wanted)).1 ∧
      (i.call (.readExact wanted)).2.Plays (r.call (.readExact wanted)).2 := by
  have hrange := h.fresh.toInRange
  have hplace := hrange.position_add_ahead
  have hinside := h.fresh.pos_le
  have hposition := h.position
  by_cases hroom : wanted ≤ r.content.size - r.pos
  · obtain ⟨data, i', hread⟩ := readFrom_of_obliging wanted .empty hrange h.obliging (by
      rw [h.content]
      omega)
    obtain ⟨-, -, hmoved, -⟩ := readFrom_eq_ok hrange hread
    obtain ⟨hsame, hfresh, rfl⟩ := h.fresh.readExact_eq_ok hread
    have hread : i.readExact wanted = _ := hread
    simp only [call, PlainReader.call, if_pos hroom, hread, Prod.map, id]
    rw [h.content, hposition]
    exact ⟨rfl, h.moved hsame hfresh (by rw [hmoved, hposition])⟩
  · obtain ⟨i', hread, hend⟩ := readFrom_of_short wanted .empty hrange h.obliging (by
      rw [h.content] at hinside ⊢
      omega)
    obtain ⟨hsame, -, hfresh | hrewound⟩ := readFrom_eq_error hrange hread
    · have hread : i.readExact wanted = _ := hread
      simp only [call, PlainReader.call, if_neg hroom, hread, Prod.map, id, true_and]
      rw [h.content] at hend hinside
      exact h.moved hsame hfresh (by omega)
    · obtain ⟨reason, ⟨⟩⟩ := hrewound.refused

theorem plays_readAll (h : i.Plays r) :
    (i.call .readAll).1 = (r.call .readAll).1 ∧ (i.call .readAll).2.Plays (r.call .readAll).2 := by
  have hall := readAll_of_obliging h.obliging
  have hend := position_readAll h.obliging
  obtain ⟨hsource, hfresh⟩ := readAll_spec (i := i) rfl
  rw [h.content] at hend hall
  exact ⟨congrArg Answer.bytes hall, h.moved hsource hfresh hend⟩

/-- The input gives up its block and is where the source went. -/
theorem plays_seek (h : i.Plays r) {target : Target}
    (hlands : (Call.seek target).Lands r.content.size) :
    (i.call (.seek target)).1 = (r.call (.seek target)).1 ∧
      (i.call (.seek target)).2.Plays (r.call (.seek target)).2 := by
  have haim : i.source.aim target = r.aim target ∧ 0 ≤ r.aim target ∧
      r.aim target < Source.placeBound := by
    cases target with
    | start n => exact ⟨rfl, Int.natCast_nonneg n, hlands⟩
    | current d => exact hlands.elim
    | stop d =>
      refine ⟨?_, hlands.1, hlands.2⟩
      show (i.source.content.size : Int) + d = r.content.size + d
      rw [h.content]
  obtain ⟨haim, hlo, hhi⟩ := haim
  obtain ⟨source, hseek, hpos⟩ := h.obliging.seek_eq_ok target (haim ▸ hlo) (haim ▸ hhi)
  have hsame := i.source.seek_same target
  rw [hseek] at hsame
  simp only [call, PlainReader.call, Input.seek, hseek, Prod.map, id]
  rw [haim]
  exact ⟨rfl, h.moved hsame fresh_of_empty ((position_of_used_up rfl).trans (haim ▸ hpos))⟩

theorem plays_seekTo (h : i.Plays r) {place : Nat} (hlands : (Call.seekTo place).Lands r.content.size) :
    (i.call (.seekTo place)).1 = (r.call (.seekTo place)).1 ∧
      (i.call (.seekTo place)).2.Plays (r.call (.seekTo place)).2 := by
  have hposition := h.position
  cases hseek : i.seekTo place with
  | mk outcome i' =>
    simp only [call, PlainReader.call, hseek, Prod.map, id]
    rcases seekTo_spec hseek with
      ⟨reason, hrefused, -, -⟩ | ⟨hthere, rfl, rfl⟩ | ⟨helse, hsame, hrange, hblock, hok, hpos⟩
    · exact absurd hrefused (h.obliging.onTell_ne _ reason)
    · exact ⟨by simp [← hposition, hthere], h.moved i.source.same_later h.fresh.later hthere⟩
    · obtain rfl := hok h.obliging hlands
      exact ⟨by simp [← hposition, helse],
        h.moved hsame (hrange.fresh_of_empty hblock) (hpos true rfl)⟩

theorem plays_position (h : i.Plays r) :
    (i.call .position).1 = (r.call .position).1 ∧
      (i.call .position).2.Plays (r.call .position).2 := by
  simp only [call, PlainReader.call, tell_of_obliging h.obliging, Prod.map, id]
  exact ⟨by rw [h.position], h.moved i.source.same_later h.fresh.later h.position⟩

/-- **Every call is answered as by the reader, and keeps the input in step with it.** -/
theorem plays_call (h : i.Plays r) {c : Call} (hlands : c.Lands r.content.size) :
    (i.call c).1 = (r.call c).1 ∧ (i.call c).2.Plays (r.call c).2 := by
  cases c with
  | readExact wanted => exact plays_readExact h wanted
  | readAll => exact plays_readAll h
  | seek target => exact plays_seek h hlands
  | seekTo place => exact plays_seekTo h hlands
  | position => exact plays_position h

theorem plays_run (h : i.Plays r) {calls : List Call}
    (hlands : ∀ c ∈ calls, c.Lands r.content.size) :
    (i.run calls).1 = (r.run calls).1 ∧ (i.run calls).2.Plays (r.run calls).2 := by
  induction calls generalizing i r with
  | nil => exact ⟨rfl, h⟩
  | cons c calls ih =>
    rw [List.forall_mem_cons] at hlands
    obtain ⟨hanswer, hnext⟩ := plays_call h hlands.1
    obtain ⟨hanswers, hlast⟩ := ih hnext (by
      rw [r.content_call]
      exact hlands.2)
    simp only [run, PlainReader.run, Prod.map, id]
    rw [hanswer, hanswers]
    exact ⟨rfl, hlast⟩

/-- **A new input over a source that answers every request is a plain reader** of its bytes: all
calls are answered alike, and the position is that of the reader behind every number of them. -/
theorem run_eq_plain {source : Source} (ho : source.Obliging) {calls : List Call}
    (hlands : ∀ c ∈ calls, c.Lands source.content.size) :
    let i : Input := ⟨source, .empty, 0⟩
    let r : PlainReader := ⟨source.content, source.pos⟩
    (i.run calls).1 = (r.run calls).1 ∧
      ∀ n, (i.run (calls.take n)).2.position = (r.run (calls.take n)).2.pos := by
  intro i r
  have hplays : i.Plays r := plays_start ho
  refine ⟨(plays_run hplays hlands).1, fun n => ?_⟩
  exact (plays_run hplays fun c hc => hlands c (List.mem_of_mem_take hc)).2.position

/-- A source of five bytes that hands over no more than two at a time. -/
def twoAtATime : Source where
  content := ⟨#[10, 11, 12, 13, 14]⟩
  onRead _ _ _ := .atMost 2

/-- Reads across the pieces, beyond the end and behind going to another place. -/
def mixedCalls : List Call :=
  [.readExact 3, .position, .seekTo 3, .seekTo 1, .readExact 9, .seek (.stop (-2)), .readExact 1,
    .readAll]

theorem twoAtATime_eq_plain :
    twoAtATime.Obliging ∧ (∀ c ∈ mixedCalls, c.Lands twoAtATime.content.size) ∧
      ((⟨twoAtATime, .empty, 0⟩ : Input).run mixedCalls).1 =
        [.bytes (.ok ⟨#[10, 11, 12]⟩), .place (.ok 3), .moved (.ok false), .moved (.ok true),
          .bytes (.error .endOfStream), .place (.ok 3), .bytes (.ok ⟨#[13]⟩),
          .bytes (.ok ⟨#[10, 11, 12, 13, 14]⟩)] := by
  have ho : twoAtATime.Obliging := ⟨fun _ _ _ _ => ⟨2, by decide, rfl⟩, fun _ => rfl, fun _ => rfl⟩
  have hlands : ∀ c ∈ mixedCalls, c.Lands twoAtATime.content.size := by decide
  refine ⟨ho, hlands, ?_⟩
  rw [(run_eq_plain ho hlands).1]
  rfl

end Input

end IsoMedia
