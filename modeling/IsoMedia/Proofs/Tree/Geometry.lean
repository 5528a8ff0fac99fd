import IsoMedia.Proofs.Tree.Kept
import IsoMedia.Proofs.Box.Grammar
import Mathlib.Data.List.Infix

/-!
# Where the nodes of a tree lie

Every node of the tree of a file is a box of that file: its type code, its size and the place of its
payload can be read off the bytes at its offset, and the boxes inside it lie in its payload, one
behind the other.

`Frame.CutFrom` is what holds of a box that was cut out of a file, `Node.Lies` what holds of a node.
`Tree.Course.deep_of_nodeOf` goes down the levels of a walk, and `Node.Below` up again from the root.

* `Tree.build_lies` : every node of the tree of a file lies in the file, at most 32 levels deep.
* `Tree.Course.inner_of_stands` : the walk inside a kept container is that of the bytes inside it.
-/

namespace IsoMedia

/-- The size of the header of a box that starts at a place of the file: the four bytes there spell 1
if a size of eight bytes follows. -/
def headerLengthAt (file : List UInt8) (offset : Nat) : Nat :=
  if (file.drop offset).take 4 = [0, 0, 0, 1] then 16 else 8

theorem eight_le_headerLengthAt (file : List UInt8) (offset : Nat) :
    8 ≤ headerLengthAt file offset := by
  unfold headerLengthAt
  split <;> decide

namespace Frame

/-- The box was cut out of the file where it says it was. -/
structure CutFrom (file : List UInt8) (f : Frame) : Prop where
  typed : (file.drop (f.offset + 4)).take 4 = f.type.bytes
  header : f.headerLength = headerLengthAt file f.offset
  payload : f.payload <+: file.drop f.payloadOffset
  payload_end : f.payloadOffset + f.payload.length = f.offset + f.size
  inside : f.offset + f.size ≤ file.length

theorem drop_add_of_append {file before after : List UInt8} {offset : Nat}
    (h : before ++ after <+: file.drop offset) : after <+: file.drop (offset + before.length) := by
  obtain ⟨rest, hrest⟩ := h
  refine ⟨rest, ?_⟩
  rw [← List.drop_drop, ← hrest, List.append_assoc, List.drop_left]

theorem add_length_le {file bytes : List UInt8} {offset : Nat} (h : bytes <+: file.drop offset)
    (hne : 0 < bytes.length) : offset + bytes.length ≤ file.length := by
  have := h.length_le
  rw [List.length_drop] at this
  omega

section Written

variable {file : List UInt8} {b : WrittenBox} {offset : Nat}

theorem announced_lt (hfits : b.Fits) : b.announced < 256 ^ 4 := by
  obtain ⟨type, form, payload⟩ := b
  cases form with
  | narrow => exact hfits
  | wide => exact show 1 < 256 ^ 4 by decide
  | toEnd => exact show 0 < 256 ^ 4 by decide

/-- The first four bytes spell 1 exactly if a size of eight bytes follows. -/
theorem headerLengthAt_of_written (hfits : b.Fits) (h : b.bytes <+: file.drop offset) :
    headerLengthAt file offset = b.headerLength := by
  have htake : (file.drop offset).take 4 = numberBytes 4 b.announced := by
    obtain ⟨rest, hrest⟩ := h
    rw [← hrest, WrittenBox.bytes, List.append_assoc,
      List.take_left' (length_numberBytes 4 b.announced)]
  have hiff : (file.drop offset).take 4 = [0, 0, 0, 1] ↔ b.announced = 1 := by
    rw [htake, show [0, 0, 0, 1] = numberBytes 4 1 by decide]
    refine ⟨fun heq => ?_, congrArg _⟩
    have hnumber := congrArg bigEndian heq
    rwa [bigEndian_numberBytes (announced_lt hfits), bigEndian_numberBytes (by decide)] at hnumber
  unfold headerLengthAt
  rw [if_congr hiff rfl rfl]
  obtain ⟨type, form, payload⟩ := b
  cases form with
  | narrow => exact if_neg (show 8 + payload.length ≠ 1 by omega)
  | wide => exact if_pos rfl
  | toEnd => exact if_neg (show 0 ≠ 1 by decide)

theorem cutFrom_of_written (hfits : b.Fits) (h : b.bytes <+: file.drop offset) :
    CutFrom file (b.frame offset) := by
  have hlength : 0 < b.bytes.length := by
    rw [WrittenBox.length_bytes]
    exact Nat.lt_of_lt_of_le (by decide) (Nat.le_trans b.eight_le_headerLength
      (Nat.le_add_right _ _))
  have htype := drop_add_of_append h
  rw [length_numberBytes] at htype
  have hpayload := drop_add_of_append (drop_add_of_append htype)
  refine ⟨?_, (headerLengthAt_of_written hfits h).symm, ?_, ?_, ?_⟩
  · obtain ⟨rest, hrest⟩ := htype
    exact hrest ▸ rfl
  · have hoffset : offset + 4 + b.type.bytes.length + b.wideSize.length =
        offset + b.headerLength := by
      have := b.length_wideSize
      rw [FourCc.length_bytes]
      omega
    rw [hoffset] at hpayload
    exact hpayload
  · exact Nat.add_assoc _ _ _
  · have := add_length_le h hlength
    rw [WrittenBox.length_bytes] at this
    exact this

end Written

/-- The boxes that are cut out of bytes of a file are cut out of the file. -/
theorem cutFrom_of_mem_all {file bytes : List UInt8} {offset : Nat} (h : bytes <+: file.drop offset)
    (scope : Scope) {f : Frame} (hf : f ∈ (all scope offset bytes).1) : CutFrom file f := by
  obtain ⟨boxes, rest, ⟨rfl, hspelled⟩, hframes, -⟩ := exists_splits scope offset bytes
  rw [hframes] at hf
  clear hframes
  induction boxes generalizing offset with
  | nil => cases hf
  | cons b boxes ih =>
    obtain ⟨hfits, -, hspelled⟩ := hspelled
    rw [WrittenBox.allBytes_cons, List.append_assoc] at h
    rcases List.mem_cons.1 hf with rfl | hf
    · exact cutFrom_of_written hfits ((List.prefix_append _ _).trans h)
    · have hrest := drop_add_of_append h
      rw [WrittenBox.length_bytes] at hrest
      exact ih hspelled hrest hf

end Frame

namespace Node

/-- Where the payload of a node starts in the file. -/
def payloadStart (file : List UInt8) (n : Node) : Nat := n.offset + headerLengthAt file n.offset

/-- Where the boxes inside a node may start: with its payload, or behind the eight fixed bytes of a
list of data references. -/
def innerStart (file : List UInt8) (n : Node) : Nat :=
  n.payloadStart file + if n.type = .ofChars 'd' 'r' 'e' 'f' then 8 else 0

/-- A header precedes the boxes inside. -/
theorem lt_innerStart (file : List UInt8) (n : Node) : n.offset < n.innerStart file := by
  unfold innerStart payloadStart
  have := eight_le_headerLengthAt file n.offset
  omega

/-- The first node ends before the second one starts. -/
def Before (a b : Node) : Prop := a.offset + a.size ≤ b.offset

/-- A node is a box of the file, and the boxes inside it lie in its payload. -/
structure Lies (file : List UInt8) (n : Node) : Prop where
  typed : (file.drop (n.offset + 4)).take 4 = n.type.bytes
  eight_le_size : 8 ≤ n.size
  payload_le : n.payloadStart file ≤ n.offset + n.size
  inside : n.offset + n.size ≤ file.length
  children_inside : ∀ c ∈ n.children,
    n.innerStart file ≤ c.offset ∧ c.offset + c.size ≤ n.offset + n.size
  children_ordered : n.children.Pairwise Before
  /-- The place kept of media data is that of the payload. -/
  mediaData : n.type = .ofChars 'm' 'd' 'a' 't' →
    n.data = .mediaData (n.payloadStart file) (n.offset + n.size - n.payloadStart file)
  container : n.children ≠ [] →
    ∃ kind, BoxKind.ofFourCc? n.type = some kind ∧ kind.isContainer = true

/-- A node lies so many levels below another one. -/
inductive Below (root : Node) : Nat → Node → Prop
  | child {c : Node} (h : c ∈ root.children) : Below root 1 c
  | deeper {depth : Nat} {n c : Node} (above : Below root depth n) (h : c ∈ n.children) :
      Below root (depth + 1) c

/-- A node and all nodes below it are boxes of the file, on at most so many levels. -/
def Deep (file : List UInt8) : Nat → Node → Prop
  | 0, _ => False
  | levels + 1, n => n.Lies file ∧ ∀ c ∈ n.children, Deep file levels c

theorem lies_of_below {file : List UInt8} {root : Node} {levels : Nat}
    (h : ∀ c ∈ root.children, Deep file levels c) {depth : Nat} {n : Node}
    (hn : Below root depth n) : depth ≤ levels ∧ n.Lies file := by
  -- So many levels above a node there are as many levels less below it.
  obtain ⟨below, hdepth, hdeep⟩ : ∃ below, depth + below = levels + 1 ∧ Deep file below n := by
    induction hn with
    | child hc => exact ⟨levels, Nat.add_comm 1 levels, h _ hc⟩
    | deeper above hc ih =>
      obtain ⟨below, hdepth, hdeep⟩ := ih
      cases below with
      | zero => exact hdeep.elim
      | succ below => exact ⟨below, by omega, hdeep.2 _ hc⟩
  cases below with
  | zero => exact hdeep.elim
  | succ below => exact ⟨by omega, hdeep.1⟩

end Node

namespace Tree

namespace Course

variable {policy : UnknownBoxPolicy} {levels : Nat} {inTrack : Bool} {kind : BoxKind} {f : Frame}
  {file : List UInt8}

/-- The kept boxes lie one behind the other. -/
theorem Placed.nodes {c : Course} {lo hi : Nat} (h : c.Placed lo hi) :
    (∀ n ∈ c.nodes, lo ≤ n.offset ∧ n.offset + n.size ≤ hi) ∧ c.nodes.Pairwise Node.Before := by
  induction c generalizing lo with
  | stop fault => exact ⟨nofun, .nil⟩
  | unknown f rest ih | unread _ f _ rest ih =>
    obtain ⟨hstart, -, hrest⟩ := h
    obtain ⟨hinside, hordered⟩ := ih hrest
    exact ⟨fun n hn => ⟨by have := (hinside n hn).1; omega, (hinside n hn).2⟩, hordered⟩
  | read kind f data inner rest ihInner ihRest =>
    obtain ⟨hstart, hinner, hrest⟩ := h
    have hinnerLe := hinner.le
    have hrestLe := hrest.le
    obtain ⟨hinside, hordered⟩ := ihRest hrest
    have hinside' : ∀ n ∈ rest.nodes, lo ≤ n.offset ∧ n.offset + n.size ≤ hi := fun n hn =>
      ⟨by have := (hinside n hn).1; omega, (hinside n hn).2⟩
    rw [Course.nodes]
    split
    · refine ⟨List.forall_mem_cons.2 ⟨⟨hstart, hrestLe⟩, hinside'⟩,
        List.pairwise_cons.2 ⟨fun n hn => (hinside n hn).1, hordered⟩⟩
    · exact ⟨hinside', hordered⟩

/-- The node is that of a box that could be read and walked to its end. -/
def NodeOf (met : BoxKind → Frame → Except Error (NodeData × Course)) (f : Frame) (n : Node) :
    Prop :=
  ∃ kind data inner, BoxKind.ofFourCc? f.type = some kind ∧ met kind f = .ok (data, inner) ∧
    n = .mk f.type f.offset f.size data inner.nodes

/-- The boxes that are kept are among those that were cut out. -/
theorem exists_of_mem_nodes {met : BoxKind → Frame → Except Error (NodeData × Course)}
    {frames : List Frame} {fault : Option Error} {n : Node}
    (h : n ∈ (ofFrames policy met frames fault).nodes) : ∃ f ∈ frames, NodeOf met f n := by
  obtain ⟨b, hb, rfl⟩ := exists_kept_of_mem_nodes h
  obtain ⟨hmem, hkind, hmet, -⟩ := mem_kept_ofFrames hb
  exact ⟨b.box, hmem, b.kind, b.data, b.inner, hkind, hmet, rfl⟩

/-- How many bytes stand before the first box inside a container. -/
def innerOffset (kind : BoxKind) : Nat := if kind = .dref then 8 else 0

theorem tells_dref (inTrack : Bool) (f : Frame) :
    Payload.tells .dref f inTrack =
      (Payload.dataReferences.parse f.payload).map fun data => (data, 8) := by
  unfold Payload.tells Payload.interpret
  rw [Checked.result_ofExcept]
  cases Payload.dataReferences.parse f.payload <;> rfl

theorem skipped_of_container (hcontainer : kind.isContainer = true) {data : NodeData}
    {skipped : Nat} (h : Payload.tells kind f inTrack = .ok (data, skipped)) :
    skipped = innerOffset kind := by
  cases kind with
  | dref =>
    rw [tells_dref] at h
    cases hparse : Payload.dataReferences.parse f.payload with
    | error e =>
      rw [hparse] at h
      cases h
    | ok d =>
      rw [hparse] at h
      cases h
      rfl
  | moov | trak | tref | trgr | edts | mdia | minf | dinf | stbl =>
    cases h
    rfl
  | _ => cases hcontainer

/-- The boxes inside a container fill its payload from behind the fixed bytes to its end. -/
theorem opening_inner {data : NodeData} {offset : Nat} {bytes : List UInt8}
    (h : opening inTrack kind f = .ok (data, some (offset, bytes))) :
    offset = f.payloadOffset + innerOffset kind ∧ bytes = f.payload.drop (innerOffset kind) := by
  unfold opening at h
  split at h
  · rename_i htrack
    cases h
    rw [htrack]
    exact ⟨rfl, rfl⟩
  · split at h
    · cases h
    · rename_i htells
      split at h
      · rename_i hcontainer
        have hskipped := skipped_of_container hcontainer htells
        split at h
        · cases h
        · cases h
          rw [hskipped]
          exact ⟨rfl, rfl⟩
      · cases h

/-- The bytes inside a box stand in the file where they say they start. -/
theorem prefix_of_opening (hcut : f.CutFrom file) {data : NodeData} {offset : Nat}
    {bytes : List UInt8} (h : opening inTrack kind f = .ok (data, some (offset, bytes))) :
    bytes <+: file.drop offset := by
  obtain ⟨hoffset, hbytes⟩ := opening_inner h
  rw [hoffset, hbytes, ← List.drop_drop]
  exact hcut.payload.drop _

theorem data_of_mdat {data : NodeData} {interior : Option (Nat × List UInt8)}
    (h : opening inTrack .mdat f = .ok (data, interior)) :
    data = .mediaData f.payloadOffset f.payload.length := by
  cases h
  rfl

theorem kind_of_type {type : FourCc} {expected : BoxKind} (h : BoxKind.ofFourCc? type = some kind)
    (htype : BoxKind.ofFourCc? type = some expected) : kind = expected :=
  Option.some.inj (h.symm.trans htype)

section Inside

variable {met : BoxKind → Frame → Except Error (NodeData × Course)} {offset : Nat}
  {bytes : List UInt8}

/-- The nodes of boxes that were cut out of bytes of a file lie in these bytes. -/
theorem nodes_ofBytes (policy : UnknownBoxPolicy)
    (hplaced : ∀ kind f data inner, f.Filled → met kind f = .ok (data, inner) →
      inner.Placed (f.offset + 1) (f.offset + f.size))
    (scope : Scope) (h : bytes <+: file.drop offset) :
    (∀ n ∈ (ofBytes policy met scope offset bytes).nodes,
      offset ≤ n.offset ∧ n.offset + n.size ≤ offset + bytes.length ∧
        ∃ f, f.CutFrom file ∧ NodeOf met f n) ∧
    (ofBytes policy met scope offset bytes).nodes.Pairwise Node.Before := by
  have hplaced : (ofBytes policy met scope offset bytes).Placed offset (offset + bytes.length) :=
    placed_ofBytes hplaced scope offset bytes
  obtain ⟨hinside, hordered⟩ := hplaced.nodes
  refine ⟨fun n hn => ?_, hordered⟩
  obtain ⟨f, hf, hnode⟩ := exists_of_mem_nodes hn
  exact ⟨(hinside n hn).1, (hinside n hn).2, f, Frame.cutFrom_of_mem_all h scope hf, hnode⟩

end Inside

/-- The nodes inside a box lie in its payload, and only a container has any. -/
theorem nodes_of_opening (hcut : f.CutFrom file) {data : NodeData}
    {interior : Option (Nat × List UInt8)}
    (hopening : opening inTrack kind f = .ok (data, interior)) (policy : UnknownBoxPolicy)
    (levels : Nat) (within : Bool) :
    (∀ n ∈ (ofInterior policy (meet policy levels within) interior).nodes,
      f.payloadOffset + innerOffset kind ≤ n.offset ∧ n.offset + n.size ≤ f.offset + f.size ∧
        ∃ g, g.CutFrom file ∧ NodeOf (meet policy levels within) g n) ∧
    (ofInterior policy (meet policy levels within) interior).nodes.Pairwise Node.Before ∧
    ((ofInterior policy (meet policy levels within) interior).nodes ≠ [] →
      kind.isContainer = true) := by
  obtain ⟨hsome, hspan⟩ := interior_of_opening hopening
  cases interior with
  | none => exact ⟨nofun, .nil, fun h => absurd rfl h⟩
  | some interior =>
    obtain ⟨offset, bytes⟩ := interior
    have hoffset := (opening_inner hopening).1
    have hend : offset + bytes.length = f.offset + f.size :=
      (hspan offset bytes rfl).2.trans hcut.payload_end
    obtain ⟨hnodes, hordered⟩ := nodes_ofBytes policy
      (fun _ _ _ _ hfilled (h : meet policy levels within _ _ = _) => placed_of_meet hfilled h)
      .nested (prefix_of_opening hcut hopening)
    refine ⟨fun n hn => ?_, hordered, fun _ => hsome.symm⟩
    obtain ⟨hlo, hhi, hnode⟩ := hnodes n hn
    exact ⟨hoffset ▸ hlo, hend ▸ hhi, hnode⟩

/-- What a box says of itself and of the boxes inside it makes a node that lies in the file. -/
theorem lies_of_cutFrom (hcut : f.CutFrom file) (hkind : BoxKind.ofFourCc? f.type = some kind)
    {data : NodeData} {children : List Node}
    (hdata : kind = .mdat → data = .mediaData f.payloadOffset f.payload.length)
    (hchildren : ∀ c ∈ children,
      f.payloadOffset + innerOffset kind ≤ c.offset ∧ c.offset + c.size ≤ f.offset + f.size)
    (hordered : children.Pairwise Node.Before) (hcontainer : children ≠ [] → kind.isContainer = true) :
    (Node.mk f.type f.offset f.size data children).Lies file := by
  obtain ⟨htyped, hheader, hpayload, hend, hinside⟩ := hcut
  have hstart : (Node.mk f.type f.offset f.size data children).payloadStart file =
      f.payloadOffset := by
    rw [Frame.payloadOffset, hheader]
    rfl
  have height : 8 ≤ f.headerLength := by
    rw [hheader]
    exact eight_le_headerLengthAt file f.offset
  have hoffset : f.payloadOffset = f.offset + f.headerLength := rfl
  refine ⟨htyped, ?_, ?_, hinside, fun c hc => ⟨?_, (hchildren c hc).2⟩, hordered, fun htype => ?_,
    fun hne => ⟨kind, hkind, hcontainer hne⟩⟩
  · exact show 8 ≤ f.size by omega
  · rw [hstart]
    exact show f.payloadOffset ≤ f.offset + f.size by omega
  · have hinner : (if f.type = .ofChars 'd' 'r' 'e' 'f' then 8 else 0) ≤ innerOffset kind := by
      split
      · rename_i htype
        have hdref : BoxKind.ofFourCc? f.type = some .dref := htype ▸ by decide
        rw [kind_of_type hkind hdref]
        exact Nat.le_refl 8
      · exact Nat.zero_le _
    rw [Node.innerStart, hstart]
    exact Nat.le_trans (Nat.add_le_add_left hinner _) (hchildren c hc).1
  · have htype : f.type = .ofChars 'm' 'd' 'a' 't' := htype
    have hlength : f.offset + f.size - f.payloadOffset = f.payload.length := by omega
    rw [hstart]
    exact (hdata (kind_of_type hkind (htype ▸ by decide))).trans (hlength ▸ rfl)

theorem deep_of_nodeOf {n : Node} (hcut : f.CutFrom file)
    (h : NodeOf (meet policy levels inTrack) f n) : n.Deep file levels := by
  induction levels generalizing inTrack f n with
  | zero =>
    obtain ⟨kind, data, inner, -, hmet, -⟩ := h
    cases hmet
  | succ levels ih =>
    obtain ⟨kind, data, inner, hkind, hmet, rfl⟩ := h
    obtain ⟨_, interior, ⟨⟩, hopening, rfl⟩ := meet_eq_ok hmet
    obtain ⟨hnodes, hordered, hcontainer⟩ :=
      nodes_of_opening hcut hopening policy levels (inTrack || kind = .trak)
    refine ⟨lies_of_cutFrom hcut hkind (fun hmdat => ?_)
      (fun n hn => ⟨(hnodes n hn).1, (hnodes n hn).2.1⟩) hordered hcontainer, fun c hc => ?_⟩
    · subst hmdat
      exact data_of_mdat hopening
    · obtain ⟨-, -, g, hg, hnode⟩ := hnodes c hc
      exact ih hg hnode

end Course

/-- **Every node of the tree of a file lies in the file**, and no deeper than 32 levels.  The boxes at
the top level lie in the file, one behind the other, and those inside a node in its payload. -/
theorem build_lies {policy : UnknownBoxPolicy} {bytes : List UInt8} {parsed : Parsed}
    (h : (build policy bytes).result = .ok parsed) :
    (∀ n ∈ parsed.root.children, n.offset + n.size ≤ bytes.length) ∧
    parsed.root.children.Pairwise Node.Before ∧
    ∀ depth n, Node.Below parsed.root depth n → depth ≤ 32 ∧ n.Lies bytes := by
  obtain ⟨-, hroot, -, -⟩ := build_eq_ok_iff.1 h
  obtain ⟨hnodes, hordered⟩ :=
    Course.nodes_ofBytes policy
      (fun _ _ _ _ hfilled (h : Course.meet policy maxDepth false _ _ = _) =>
        Course.placed_of_meet hfilled h)
      .topLevel (List.prefix_refl (bytes.drop 0))
  rw [hroot]
  refine ⟨fun n hn => ?_, hordered, fun depth n hn => Node.lies_of_below (fun c hc => ?_) hn⟩
  · have := (hnodes n hn).2.1
    rwa [Nat.zero_add] at this
  · obtain ⟨-, -, f, hcut, hnode⟩ := hnodes c hc
    exact Course.deep_of_nodeOf hcut hnode

/-- A file with user data in a movie, and a byte of media data behind it. -/
def smallFile : List UInt8 :=
  [0, 0, 0, 16, 109, 111, 111, 118, 0, 0, 0, 8, 117, 100, 116, 97, 0, 0, 0, 9, 109, 100, 97, 116, 1]

theorem smallFile_lies : ∃ parsed, (build .skip smallFile).result = .ok parsed ∧
    parsed.root.children.map (fun n => (n.offset, n.size)) = [(0, 16), (16, 9)] ∧
    ∀ depth n, Node.Below parsed.root depth n → depth ≤ 32 ∧ n.Lies smallFile := by
  have hplaces : ((build .skip smallFile).result.map fun parsed =>
      parsed.root.children.map fun n => (n.offset, n.size)) = .ok [(0, 16), (16, 9)] := by
    decide +kernel
  cases hbuild : (build .skip smallFile).result with
  | error e =>
    rw [hbuild] at hplaces
    cases hplaces
  | ok parsed =>
    rw [hbuild] at hplaces
    exact ⟨parsed, rfl, Except.ok.inj hplaces, (build_lies hbuild).2.2⟩

/-! ### The bytes inside a node -/

end Tree

/-- The bytes of a file in which the boxes inside a node stand. -/
def Node.interior (file : List UInt8) (n : Node) : List UInt8 :=
  (file.drop (n.innerStart file)).take (n.offset + n.size - n.innerStart file)

namespace Tree

/-- A box is kept so many levels down in a file: it was cut out of the file, and could be read and
walked to its end there. -/
structure KeptBox.Stands (policy : UnknownBoxPolicy) (file : List UInt8) (depth : Nat)
    (b : KeptBox) : Prop where
  cut : b.box.CutFrom file
  kind_eq : BoxKind.ofFourCc? b.box.type = some b.kind
  ends : b.inner.fault? = none
  met : ∃ below inTrack, depth + below = maxDepth ∧
    Course.meet policy (below + 1) inTrack b.kind b.box = .ok (b.data, b.inner)

namespace Course

variable {policy : UnknownBoxPolicy} {file : List UInt8} {depth : Nat} {b : KeptBox}

/-- The nodes below the root are the boxes that are kept. -/
theorem exists_keeps_of_below {c : Course} {root n : Node} (hroot : root.children = c.nodes)
    (h : Node.Below root depth n) : ∃ b, c.Keeps depth b ∧ b.node = n := by
  induction h with
  | child hn =>
    rw [hroot] at hn
    obtain ⟨b, hb, hnode⟩ := exists_kept_of_mem_nodes hn
    exact ⟨b, .here hb, hnode⟩
  | deeper above hn ih =>
    obtain ⟨b, hb, rfl⟩ := ih
    obtain ⟨b', hb', hnode⟩ := exists_kept_of_mem_nodes hn
    exact ⟨b', .inside hb hb', hnode⟩

theorem stands_of_keeps (h : (ofFile policy file).Keeps depth b) : b.Stands policy file depth := by
  induction h with
  | here hb =>
    obtain ⟨hmem, hkind, hmet, hends⟩ := mem_kept_ofFrames hb
    have hcut := Frame.cutFrom_of_mem_all (List.prefix_refl (file.drop 0)) .topLevel hmem
    exact ⟨hcut, hkind, hends, 31, false, rfl, hmet⟩
  | inside above hb ih =>
    obtain ⟨hcut, -, -, below, inTrack, hdepth, hmet⟩ := ih
    obtain ⟨_, interior, ⟨⟩, hopening, hinner⟩ := meet_eq_ok hmet
    rw [hinner] at hb
    -- The box above holds boxes, and this one was cut out of the bytes inside it.
    cases interior with
    | none => cases hb
    | some interior =>
      obtain ⟨hmem, hkind, hmet', hends⟩ := mem_kept_ofFrames hb
      obtain ⟨below', -, rfl, -⟩ := meet_eq_ok hmet'
      have hcut' := Frame.cutFrom_of_mem_all (prefix_of_opening hcut hopening) .nested hmem
      exact ⟨hcut', hkind, hends, below', _, by omega, hmet'⟩

/-- Only one type code is that of a list of data references. -/
theorem type_of_dref {type : FourCc} (h : BoxKind.ofFourCc? type = some .dref) :
    type = .ofChars 'd' 'r' 'e' 'f' := by
  obtain ⟨p, hp, hkind⟩ := Option.map_eq_some_iff.1 h
  have hcode : p.1 = type := by simpa using List.find?_some hp
  have hcodes : ∀ p ∈ BoxKind.codes, p.2 = .dref → p.1 = .ofChars 'd' 'r' 'e' 'f' := by decide
  rw [← hcode]
  exact hcodes p (List.mem_of_find?_eq_some hp) hkind

theorem innerStart_node (hcut : b.box.CutFrom file)
    (hkind : BoxKind.ofFourCc? b.box.type = some b.kind) :
    b.node.innerStart file = b.box.payloadOffset + innerOffset b.kind := by
  have hfixed : (if b.box.type = .ofChars 'd' 'r' 'e' 'f' then 8 else 0) = innerOffset b.kind := by
    by_cases hdref : b.kind = .dref
    · rw [hdref] at hkind ⊢
      rw [if_pos (type_of_dref hkind)]
      rfl
    · rw [if_neg, innerOffset, if_neg hdref]
      intro htype
      exact hdref (kind_of_type hkind (htype ▸ by decide))
  rw [Frame.payloadOffset, hcut.header, ← hfixed]
  rfl

/-- **The walk inside a kept container is that of the bytes inside its node.** -/
theorem inner_of_stands (h : b.Stands policy file depth) (hcontainer : b.kind.isContainer = true) :
    ∃ inTrack, (b.kind = .trak → inTrack = true) ∧
      b.inner = ofBytes policy (meet policy (maxDepth - depth) inTrack) .nested
        (b.node.innerStart file) (b.node.interior file) := by
  obtain ⟨hcut, hkind, -, below, within, hdepth, hmet⟩ := h
  obtain ⟨_, interior, ⟨⟩, hopening, hinner⟩ := meet_eq_ok hmet
  obtain ⟨hsome, -⟩ := interior_of_opening hopening
  refine ⟨within || b.kind = .trak, fun htrack => by simp [htrack], ?_⟩
  cases interior with
  | none => cases hsome.trans hcontainer
  | some interior =>
    obtain ⟨offset, bytes⟩ := interior
    obtain ⟨rfl, rfl⟩ := opening_inner hopening
    -- The payload is what stands in the file between its start and the end of the box.
    have hpayload : b.box.payload =
        (file.drop b.box.payloadOffset).take (b.box.offset + b.box.size - b.box.payloadOffset) := by
      have hend := hcut.payload_end
      rw [show b.box.offset + b.box.size - b.box.payloadOffset = b.box.payload.length by omega]
      exact List.prefix_iff_eq_take.1 hcut.payload
    have hinterior : b.node.interior file = b.box.payload.drop (innerOffset b.kind) := by
      rw [Node.interior, innerStart_node hcut hkind, hpayload, List.drop_take, List.drop_drop,
        Nat.sub_sub]
      rfl
    rw [hinner, hinterior, innerStart_node hcut hkind, ← hdepth, Nat.add_sub_cancel_left]
    rfl

end Course

end Tree

end IsoMedia
