import IsoMedia.Proofs.Tree.Geometry

/-!
# No box is lost

Of the boxes that are cut out of a container, each becomes a child of its node or is reported in one
warning, and never both.  `Accounts` says so of one level.  `Course.accounts_ofFrames` goes along the
boxes of a level, where `Course.ofFrames_cons_of_ends` tells what becomes of the first of them; the
warnings about a level are those of the walk there (`Course.Placed.warningsAbout_eq`), so that it
holds of the whole tree.

* `Tree.build_accounts` : in the tree of a file, every box is a child of the node that it stands in,
  or in one warning.
-/

namespace IsoMedia

/-- The boxes that stand inside a node, and the fault that ended their cutting. -/
def Node.framesInside (file : List UInt8) (n : Node) : List Frame × Option Error :=
  Frame.all .nested (n.innerStart file) (n.interior file)

namespace Tree

/-- The node is that of the box. -/
def Shows (n : Node) (f : Frame) : Prop :=
  n.type = f.type ∧ n.offset = f.offset ∧ n.size = f.size

instance (f : Frame) : DecidablePred (Shows · f) :=
  fun n => inferInstanceAs (Decidable (n.type = f.type ∧ n.offset = f.offset ∧ n.size = f.size))

/-- How many of the nodes are that of a box. -/
def appearances (f : Frame) (ns : List Node) : Nat := ns.countP (Shows · f)

/-- Every box that was cut out is a child or in a warning, and the children are in the order of the
boxes. -/
structure Accounts (warnings : List ParseWarning) (cut : List Frame × Option Error)
    (children : List Node) : Prop where
  /-- The boxes were cut out to the end. -/
  whole : cut.2 = none
  ordered : ∃ frames : List Frame, frames.Sublist cut.1 ∧ List.Forall₂ Shows children frames
  /-- A child or a warning, but not both, and none of them twice. -/
  once : ∀ f ∈ cut.1, appearances f children + warningsAbout f warnings = 1

@[simp] theorem appearances_append (f : Frame) (ns ns' : List Node) :
    appearances f (ns ++ ns') = appearances f ns + appearances f ns' := List.countP_append

theorem appearances_eq_zero {f : Frame} {ns : List Node} (h : ∀ n ∈ ns, n.offset ≠ f.offset) :
    appearances f ns = 0 := by
  refine List.countP_eq_zero.2 fun n hn hshows => ?_
  exact h n hn (of_decide_eq_true hshows).2.1

/-- What is known of other warnings does not matter. -/
theorem Accounts.of_warnings {warnings warnings' : List ParseWarning}
    {cut : List Frame × Option Error} {children : List Node} (h : Accounts warnings cut children)
    (heq : ∀ f ∈ cut.1, warningsAbout f warnings' = warningsAbout f warnings) :
    Accounts warnings' cut children := by
  refine ⟨h.whole, h.ordered, fun f hf => ?_⟩
  rw [heq f hf]
  exact h.once f hf

namespace Course

variable {policy : UnknownBoxPolicy} {met : BoxKind → Frame → Except Error (NodeData × Course)}
  {f : Frame} {frames : List Frame} {fault : Option Error}

/-- The walk went on behind the box to its end: it was passed over, dropped or kept. -/
inductive GoesOn (f : Frame) (rest : Course) : Course → Prop
  | passed : GoesOn f rest (unknown f rest)
  | unreadable {kind : BoxKind} (e : Error) (h : kind.isCritical = false) :
      GoesOn f rest (unread kind f e rest)
  | dropped {kind : BoxKind} (data : NodeData) (inner : Course) {e : Error}
      (h : kind.isCritical = false) (hfault : inner.fault? = some e) :
      GoesOn f rest (read kind f data inner rest)
  | kept (kind : BoxKind) (data : NodeData) {inner : Course} (hends : inner.fault? = none) :
      GoesOn f rest (read kind f data inner rest)

theorem andThen_of_ends {kind : BoxKind} {fault : Option Error} {rest : Course}
    (h : (andThen kind fault rest).fault? = none) :
    andThen kind fault rest = rest ∧ ∀ e, fault = some e → kind.isCritical = false := by
  cases fault with
  | none => exact ⟨rfl, nofun⟩
  | some e =>
    cases hcritical : kind.isCritical with
    | true =>
      rw [andThen, hcritical, if_pos rfl] at h
      cases h
    | false => exact ⟨by rw [andThen, hcritical]; rfl, fun _ _ => rfl⟩

/-- What becomes of the first box of a level that is walked to its end. -/
theorem ofFrames_cons_of_ends (h : (ofFrames policy met (f :: frames) fault).fault? = none) :
    (ofFrames policy met frames fault).fault? = none ∧
      GoesOn f (ofFrames policy met frames fault) (ofFrames policy met (f :: frames) fault) := by
  cases hkind : BoxKind.ofFourCc? f.type with
  | none =>
    cases policy with
    | skip =>
      rw [ofFrames_skip_unknown frames fault hkind] at h ⊢
      exact ⟨h, .passed⟩
    | fail =>
      rw [ofFrames_fail_unknown frames fault hkind] at h
      cases h
  | some kind =>
    cases hmet : met kind f with
    | error e =>
      rw [ofFrames_unread frames fault hkind hmet] at h ⊢
      obtain ⟨hrest, hdrops⟩ := andThen_of_ends h
      rw [fault?, hrest] at h
      rw [hrest]
      exact ⟨h, .unreadable e (hdrops e rfl)⟩
    | ok p =>
      obtain ⟨data, inner⟩ := p
      rw [ofFrames_read frames fault hkind hmet] at h ⊢
      obtain ⟨hrest, hdrops⟩ := andThen_of_ends h
      rw [fault?, hrest] at h
      rw [hrest]
      cases hinner : inner.fault? with
      | none => exact ⟨h, .kept kind data hinner⟩
      | some e => exact ⟨h, .dropped data inner (hdrops e hinner) hinner⟩

/-- What a box adds to the nodes and the warnings of the boxes behind it: one of either, and
warnings about what lies in it. -/
structure Adds (f : Frame) (rest c : Course) (ns : List Node) (ws : List ParseWarning) : Prop where
  nodes : c.nodes = ns ++ rest.nodes
  warnings : c.warnings = ws ++ rest.warnings
  once : appearances f ns + warningsAbout f ws = 1
  shows : ns = [] ∨ ∃ n, ns = [n] ∧ Shows n f
  within : ∀ w ∈ ws, w.offset < f.offset + f.size

theorem warningsAbout_singleton (f : Frame) (message : String) :
    warningsAbout f [⟨f.offset, f.type, message⟩] = 1 := by
  simp [warningsAbout, ParseWarning.IsAbout]

theorem warningsAbout_dropWarnings {kind : BoxKind} (h : kind.isCritical = false) (f : Frame)
    (e : Error) : warningsAbout f (dropWarnings kind f (some e)) = 1 := by
  rw [dropWarnings, h]
  exact warningsAbout_singleton f _

/-- A box whose walk went on adds a node or a warning. -/
theorem GoesOn.adds {rest c : Course} {hi : Nat} (h : GoesOn f rest c)
    (hplaced : c.Placed f.offset hi) : ∃ ns ws, Adds f rest c ns ws := by
  cases h with
  | passed =>
    obtain ⟨-, hsize, -⟩ := hplaced
    refine ⟨[], [unknownWarning f], rfl, rfl, ?_, .inl rfl, fun w hw => ?_⟩
    · exact (Nat.zero_add _).trans (warningsAbout_singleton f _)
    · rw [List.mem_singleton.1 hw]
      exact show f.offset < f.offset + f.size by omega
  | unreadable e hdrops =>
    obtain ⟨-, hsize, -⟩ := hplaced
    refine ⟨[], _, rfl, rfl, ?_, .inl rfl, fun w hw => ?_⟩
    · exact (Nat.zero_add _).trans (warningsAbout_dropWarnings hdrops f e)
    · have := offset_of_mem_dropWarnings hw
      omega
  | dropped data inner hdrops hfault =>
    rename_i kind e
    obtain ⟨-, hinner, -⟩ := hplaced
    have hle := hinner.le
    refine ⟨[], inner.warnings ++ dropWarnings kind f inner.fault?, ?_, ?_, ?_, .inl rfl, ?_⟩
    · rw [nodes, hfault]
      rfl
    · rw [Course.warnings, List.append_assoc]
    · -- What the walk inside warns about starts behind the box itself.
      have hinside := hinner.warningsAbout_eq_zero (.inl (Nat.lt_succ_self f.offset))
      rw [warningsAbout_append, hinside, hfault, warningsAbout_dropWarnings hdrops]
      rfl
    · intro w hw
      rcases List.mem_append.1 hw with hw | hw
      · exact (hinner.warnings w hw).2
      · have := offset_of_mem_dropWarnings hw
        omega
  | kept kind data hends =>
    rename_i inner
    obtain ⟨-, hinner, -⟩ := hplaced
    refine ⟨[.mk f.type f.offset f.size data inner.nodes], inner.warnings, ?_, ?_, ?_,
      .inr ⟨_, rfl, rfl, rfl, rfl⟩, fun w hw => (hinner.warnings w hw).2⟩
    · rw [nodes, hends]
      rfl
    · rw [Course.warnings, hends]
      rfl
    · rw [hinner.warningsAbout_eq_zero (.inl (Nat.lt_succ_self f.offset))]
      simp [appearances, Shows, Node.type, Node.offset, Node.size]

theorem Adds.appearances_eq_zero {rest c : Course} {ns : List Node} {ws : List ParseWarning}
    (h : Adds f rest c ns ws) {g : Frame} (hne : f.offset ≠ g.offset) : appearances g ns = 0 := by
  refine Tree.appearances_eq_zero fun n hn => ?_
  rcases h.shows with rfl | ⟨m, rfl, -, hoffset, -⟩
  · cases hn
  · rw [List.mem_singleton.1 hn, hoffset]
    exact hne

/-- One box more at the front of a level. -/
theorem Adds.accounts {rest c : Course} {ns : List Node} {ws : List ParseWarning} {hi : Nat}
    (h : Adds f rest c ns ws) (hsize : 0 < f.size)
    (hframes : Frame.Placed (f.offset + f.size) hi frames)
    (hrest : rest.Placed (f.offset + f.size) hi)
    (haccounts : Accounts rest.warnings (frames, fault) rest.nodes) :
    Accounts c.warnings (f :: frames, fault) c.nodes := by
  obtain ⟨hwhole, ⟨shown, hshown, hnodes⟩, honce⟩ := haccounts
  rw [h.nodes, h.warnings]
  refine ⟨hwhole, ?_, fun g hg => ?_⟩
  · rcases h.shows with rfl | ⟨n, rfl, hn⟩
    · exact ⟨shown, hshown.cons f, hnodes⟩
    · exact ⟨f :: shown, hshown.cons_cons f, hnodes.cons hn⟩
  · rw [appearances_append, warningsAbout_append]
    rcases List.mem_cons.1 hg with rfl | hg
    · -- Nothing behind the first box is about it.
      have hbehind : g.offset < g.offset + g.size := by omega
      have hnodesRest : appearances g rest.nodes = 0 :=
        Tree.appearances_eq_zero fun n hn =>
          Nat.ne_of_gt (Nat.lt_of_lt_of_le hbehind (hrest.nodes.1 n hn).1)
      rw [hrest.warningsAbout_eq_zero (.inl hbehind), hnodesRest]
      exact h.once
    · -- Nothing that the first box adds is about one behind it.
      have hbehind := (hframes.offset_of_mem hg).1
      have hwarnings : warningsAbout g ws = 0 :=
        warningsAbout_of_ne fun w hw => Nat.ne_of_lt (Nat.lt_of_lt_of_le (h.within w hw) hbehind)
      rw [h.appearances_eq_zero (by omega), hwarnings, Nat.zero_add, Nat.zero_add]
      exact honce g hg

/-- **Of the boxes of a level that is walked to its end, each becomes a node or a warning.** -/
theorem accounts_ofFrames
    (hmet : ∀ kind f data inner, f.Filled → met kind f = .ok (data, inner) →
      inner.Placed (f.offset + 1) (f.offset + f.size))
    {lo hi : Nat} (hframes : Frame.Placed lo hi frames)
    (hends : (ofFrames policy met frames fault).fault? = none) :
    Accounts (ofFrames policy met frames fault).warnings (frames, fault)
      (ofFrames policy met frames fault).nodes := by
  induction frames generalizing lo with
  | nil => exact ⟨hends, ⟨[], List.Sublist.refl _, .nil⟩, nofun⟩
  | cons f frames ih =>
    obtain ⟨-, hfilled, hbehind⟩ := hframes
    have hfront : Frame.Placed f.offset hi (f :: frames) := ⟨Nat.le_refl _, hfilled, hbehind⟩
    obtain ⟨hrest, hgoes⟩ := ofFrames_cons_of_ends hends
    obtain ⟨ns, ws, hadds⟩ := hgoes.adds (placed_ofFrames hmet hfront fault)
    exact hadds.accounts hfilled.size_pos hbehind (placed_ofFrames hmet hbehind fault)
      (ih hbehind hrest)

theorem accounts_ofBytes
    (hmet : ∀ kind f data inner, f.Filled → met kind f = .ok (data, inner) →
      inner.Placed (f.offset + 1) (f.offset + f.size))
    {scope : Scope} {offset : Nat} {bytes : List UInt8}
    (hends : (ofBytes policy met scope offset bytes).fault? = none) :
    Accounts (ofBytes policy met scope offset bytes).warnings (Frame.all scope offset bytes)
      (ofBytes policy met scope offset bytes).nodes :=
  accounts_ofFrames hmet (Frame.placed_all scope offset bytes) hends

end Course

/-- **No box is silently lost.**  In the tree of a file, every box that is cut out at the top level
or inside a container of the tree is a child of the node that it stands in, of the same type and at
the same place, in the order of the file, or in one warning with its place and type; it is never both
and never there twice. -/
theorem build_accounts {policy : UnknownBoxPolicy} {bytes : List UInt8} {parsed : Parsed}
    (h : (build policy bytes).result = .ok parsed) :
    Accounts parsed.warnings.toList (Frame.all .topLevel 0 bytes) parsed.root.children ∧
    ∀ depth n kind, Node.Below parsed.root depth n → n.kind? = some kind →
      kind.isContainer = true →
      Accounts parsed.warnings.toList (n.framesInside bytes) n.children := by
  obtain ⟨hends, hroot, -, hwarnings⟩ := build_eq_ok_iff.1 h
  have hplaced := Course.placed_ofFile policy bytes
  rw [hwarnings, hroot]
  refine ⟨Course.accounts_ofBytes (fun _ _ _ _ => Course.placed_of_meet) hends,
    fun depth n kind hn hkind hcontainer => ?_⟩
  obtain ⟨b, hkeeps, rfl⟩ := Course.exists_keeps_of_below rfl hn
  have hstands := Course.stands_of_keeps hkeeps
  have hends' := hstands.ends
  obtain rfl : b.kind = kind := Option.some.inj (hstands.kind_eq.symm.trans hkind)
  obtain ⟨inTrack, -, hinner⟩ := Course.inner_of_stands hstands hcontainer
  have hlocal : Accounts b.inner.warnings (b.node.framesInside bytes) b.inner.nodes := by
    rw [hinner] at hends' ⊢
    exact Course.accounts_ofBytes (fun _ _ _ _ => Course.placed_of_meet) hends'
  refine hlocal.of_warnings fun f hf => ?_
  -- The box lies behind the start of the container, and before its end.
  obtain ⟨hlo, hhi⟩ := (Frame.placed_all .nested _ _).offset_of_mem hf
  have hstart := b.node.lt_innerStart bytes
  have hlength : (b.node.interior bytes).length ≤
      b.node.offset + b.node.size - b.node.innerStart bytes := List.length_take_le _ _
  have hoffset : b.node.offset = b.box.offset := rfl
  have hsize : b.node.size = b.box.size := rfl
  exact hplaced.warningsAbout_eq hkeeps (by omega) (by omega)

/-- A file with a movie in which a box is of an unknown kind, and an edit list stands in no track. -/
def lossyFile : List UInt8 :=
  [0, 0, 0, 41, 109, 111, 111, 118, 0, 0, 0, 8, 117, 100, 116, 97, 0, 0, 0, 9, 97, 98, 99, 100, 7,
    0, 0, 0, 16, 101, 108, 115, 116, 0, 0, 0, 0, 0, 0, 0, 0, 0, 0, 0, 9, 109, 100, 97, 116, 1]

theorem lossyFile_accounts : ∃ parsed, (build .skip lossyFile).result = .ok parsed ∧
    parsed.warnings.toList.map (·.offset) = [16, 25] ∧
    Accounts parsed.warnings.toList (Frame.all .topLevel 0 lossyFile) parsed.root.children ∧
    ∀ depth n kind, Node.Below parsed.root depth n → n.kind? = some kind →
      kind.isContainer = true →
      Accounts parsed.warnings.toList (n.framesInside lossyFile) n.children := by
  have hwarned : ((build .skip lossyFile).result.map fun parsed =>
      parsed.warnings.toList.map (·.offset)) = .ok [16, 25] := by
    decide +kernel
  cases hbuild : (build .skip lossyFile).result with
  | error e =>
    rw [hbuild] at hwarned
    cases hwarned
  | ok parsed =>
    rw [hbuild] at hwarned
    exact ⟨parsed, rfl, Except.ok.inj hwarned, build_accounts hbuild⟩

end Tree

end IsoMedia
