import Glass2Glass.Wire.Basic

/-!
# Frame metadata on the wire

The metadata a frame carries, keyed by type, and the codec of the six types that cross a link. Floats
are bit patterns. The class-name table of an analytics graph is not written, and counts are written as
32-bit words, so an entry is recovered exactly when it has no table and its counts fit
(`decodes_getEntry`, `yields_getEntry`).
-/

namespace Glass2Glass

/-- A single-precision float, as its bits. -/
abbrev F32 := UInt32

/-- A double-precision float, as its bits. -/
abbrev F64 := UInt64

/-! ## Metadata -/

/-- A normalized bounding box. -/
structure BBox where
  /-- Left edge. -/
  x : F32
  /-- Top edge. -/
  y : F32
  w : F32
  h : F32
  deriving DecidableEq

/-- A coverage mask; its rows fit its bytes. -/
structure Mask where
  /-- Samples per row. -/
  width : UInt32
  height : UInt32
  /-- Bytes per row. -/
  stride : UInt32
  data : List UInt8
  /-- A row is no longer than its stride. -/
  width_le : width.toNat ≤ stride.toNat
  /-- The rows fit the bytes. -/
  rows_le : stride.toNat * height.toNat ≤ data.length
  deriving DecidableEq

/-- Build a mask, `none` if the geometry does not fit the bytes. -/
def Mask.new (width height stride : UInt32) (data : List UInt8) : Option Mask :=
  if h : width.toNat ≤ stride.toNat ∧ stride.toNat * height.toNat ≤ data.length then
    some ⟨width, height, stride, data, h.1, h.2⟩
  else none

structure Keypoint where
  /-- Horizontal position. -/
  x : F32
  /-- Vertical position. -/
  y : F32
  /-- Visibility score. -/
  confidence : F32
  deriving DecidableEq

inductive AnalyticsNode where
  | detection (bbox : BBox) (label : UInt32) (confidence : F32)
  | classification (label : UInt32) (confidence : F32)
  | tracking (objectId : UInt64)
  | segmentation (bbox : BBox) (label : UInt32) (confidence : F32) (mask : Mask)
  | roi (bbox : BBox) (id label : UInt32)
  | pose (bbox : BBox) (label : UInt32) (confidence : F32) (keypoints : List Keypoint)
  | orientedDetection (cx cy w h angleRadians : F32) (label : UInt32) (confidence : F32)
  deriving DecidableEq

/-- The kind of an edge of the analytics graph. -/
inductive RelationKind where
  | classifies
  | tracks
  | contains
  deriving DecidableEq

/-- An edge of the analytics graph, between two node indices. -/
structure Relation where
  /-- Where the edge starts. -/
  fromNode : Nat
  /-- Where it ends. -/
  toNode : Nat
  kind : RelationKind
  deriving DecidableEq

/-- The analytics graph of a frame. -/
structure AnalyticsMeta where
  nodes : List AnalyticsNode
  /-- The edges between them. -/
  relations : List Relation
  /-- Class names by label, if the producer published any. -/
  classNames : Option (List String)
  deriving DecidableEq

/-- One opaque tagged blob. -/
structure Blob where
  header : String
  payload : List UInt8
  deriving DecidableEq

/-- One closed-caption byte triple. -/
structure CaptionTriple where
  ccType : UInt8
  /-- First data byte. -/
  b0 : UInt8
  /-- Second data byte. -/
  b1 : UInt8
  deriving DecidableEq

structure Chromaticity where
  /-- First coordinate. -/
  x : F32
  /-- Second coordinate. -/
  y : F32
  deriving DecidableEq

/-- The mastering display colour volume. -/
structure MasteringDisplay where
  /-- Red, green and blue primaries. -/
  displayPrimaries : Chromaticity × Chromaticity × Chromaticity
  whitePoint : Chromaticity
  maxLuminance : F32
  minLuminance : F32
  deriving DecidableEq

structure TimecodeMeta where
  hours : UInt8
  minutes : UInt8
  seconds : UInt8
  frames : UInt8
  dropFrame : Bool
  /-- Frames per second, Q16, if declared. -/
  framerateQ16 : Option UInt32
  deriving DecidableEq

/-- The metadata types that cross a link. -/
inductive FrameMeta where
  | analytics (graph : AnalyticsMeta)
  | blob (blobs : List Blob)
  | caption (triples : List CaptionTriple)
  | hdrStatic (mastering : Option MasteringDisplay)
      (maxContentLightLevel maxFrameAverageLightLevel : Option UInt16)
  | timecode (timecode : TimecodeMeta)
  | wallClock (unixNanos : Int64)
  deriving DecidableEq

/-- The type of a metadata entry. -/
inductive MetaKind where
  | analytics
  | blob
  | caption
  | hdrStatic
  | timecode
  | wallClock
  deriving DecidableEq

/-- The type of an entry. -/
def FrameMeta.kind : FrameMeta → MetaKind
  | .analytics .. => .analytics
  | .blob .. => .blob
  | .caption .. => .caption
  | .hdrStatic .. => .hdrStatic
  | .timecode .. => .timecode
  | .wallClock .. => .wallClock

/-- The metadata of a frame: at most one entry of each type. -/
structure FrameMetaSet where
  /-- The entries, in the order they were first attached. -/
  entries : List FrameMeta
  /-- No type is there twice. -/
  nodup_kinds : (entries.map FrameMeta.kind).Nodup
  deriving DecidableEq

namespace FrameMetaSet

def new : FrameMetaSet := ⟨[], List.nodup_nil⟩

/-- The entries with one attached: it replaces an entry of its type in place, or comes last. -/
def attachEntries (entries : List FrameMeta) (m : FrameMeta) : List FrameMeta :=
  match entries.findIdx? fun other => other.kind == m.kind with
  | some idx => entries.set idx m
  | none => entries ++ [m]

theorem nodup_attachEntries {entries : List FrameMeta} (h : (entries.map FrameMeta.kind).Nodup)
    (m : FrameMeta) : ((attachEntries entries m).map FrameMeta.kind).Nodup := by
  unfold attachEntries
  split
  · rename_i idx hidx
    obtain ⟨hlt, hkind, -⟩ := List.findIdx?_eq_some_iff_getElem.1 hidx
    have hlt' : idx < (entries.map FrameMeta.kind).length := by rwa [List.length_map]
    have hsame : (entries.map FrameMeta.kind)[idx] = m.kind := by
      rw [List.getElem_map]
      exact beq_iff_eq.1 hkind
    rw [List.map_set, ← hsame, List.set_getElem_self]
    exact h
  · rename_i hnone
    rw [List.map_append, List.map_singleton, List.nodup_append]
    refine ⟨h, List.nodup_singleton _, ?_⟩
    rintro _ hk _ hm rfl
    obtain ⟨other, hother, heq⟩ := List.mem_map.1 hk
    have hdiff := List.findIdx?_eq_none_iff.1 hnone other hother
    rw [heq, List.mem_singleton.1 hm] at hdiff
    simp at hdiff

def attach (set : FrameMetaSet) (m : FrameMeta) : FrameMetaSet :=
  ⟨attachEntries set.entries m, nodup_attachEntries set.nodup_kinds m⟩

/-- The entry of a type, if any. -/
def get (set : FrameMetaSet) (kind : MetaKind) : Option FrameMeta :=
  set.entries.find? fun m => m.kind == kind

end FrameMetaSet

namespace Wire

open Codec

/-! ## Writing -/

/-- Write a float. -/
def putF32 (v : F32) : List UInt8 := putU32 v

def putBBox (b : BBox) : List UInt8 := putF32 b.x ++ (putF32 b.y ++ (putF32 b.w ++ putF32 b.h))

def putKeypoint (k : Keypoint) : List UInt8 := putF32 k.x ++ (putF32 k.y ++ putF32 k.confidence)

/-- Write a node of the analytics graph. -/
def putNode : AnalyticsNode → List UInt8
  | .detection bbox label confidence =>
    putU8 0 ++ (putBBox bbox ++ (putU32 label ++ putF32 confidence))
  | .classification label confidence => putU8 1 ++ (putU32 label ++ putF32 confidence)
  | .tracking objectId => putU8 2 ++ putU64 objectId
  | .segmentation bbox label confidence mask =>
    putU8 3 ++ (putBBox bbox ++ (putU32 label ++ (putF32 confidence ++ (putU32 mask.width ++
      (putU32 mask.height ++ (putU32 mask.stride ++ putBytes mask.data))))))
  | .roi bbox id label => putU8 4 ++ (putBBox bbox ++ (putU32 id ++ putU32 label))
  | .pose bbox label confidence keypoints =>
    putU8 5 ++ (putBBox bbox ++ (putU32 label ++ (putF32 confidence ++
      (putU32 (len32 keypoints.length) ++ keypoints.flatMap putKeypoint))))
  | .orientedDetection cx cy w h angleRadians label confidence =>
    putU8 6 ++ (putF32 cx ++ (putF32 cy ++ (putF32 w ++ (putF32 h ++ (putF32 angleRadians ++
      (putU32 label ++ putF32 confidence))))))

/-- The byte of a relation's kind. -/
def relationKindToU8 : RelationKind → UInt8
  | .classifies => 0
  | .tracks => 1
  | .contains => 2

def relationKindFromU8 : UInt8 → Except WireError RelationKind
  | 0 => .ok .classifies
  | 1 => .ok .tracks
  | 2 => .ok .contains
  | _ => .error .badTag

/-- Write an edge of the analytics graph. -/
def putRelation (r : Relation) : List UInt8 :=
  putU32 (len32 r.fromNode) ++ (putU32 (len32 r.toNode) ++ putU8 (relationKindToU8 r.kind))

def putBlob (b : Blob) : List UInt8 := putStr b.header ++ putBytes b.payload

def putTriple (t : CaptionTriple) : List UInt8 := putU8 t.ccType ++ (putU8 t.b0 ++ putU8 t.b1)

def putChromaticity (c : Chromaticity) : List UInt8 := putF32 c.x ++ putF32 c.y

/-- Write a mastering display, behind a flag that says whether there is one. -/
def putMastering : Option MasteringDisplay → List UInt8
  | some m => putBool true ++ (putChromaticity m.displayPrimaries.1 ++
      (putChromaticity m.displayPrimaries.2.1 ++ (putChromaticity m.displayPrimaries.2.2 ++
        (putChromaticity m.whitePoint ++ (putF32 m.maxLuminance ++ putF32 m.minLuminance)))))
  | none => putBool false

/-- Write an optional 16-bit word: whether it is there, and its value widened to 32 bits. -/
def putOptU16 (v : Option UInt16) : List UInt8 := putBool v.isSome ++ putU32 (v.getD 0).toUInt32

/-- Write an optional 32-bit word: whether it is there, and its value. -/
def putOptU32 (v : Option UInt32) : List UInt8 := putBool v.isSome ++ putU32 (v.getD 0)

/-- Write an entry, its tag first. -/
def putEntry : FrameMeta → List UInt8
  | .analytics a =>
    putU8 0 ++ (putU32 (len32 a.nodes.length) ++ (a.nodes.flatMap putNode ++
      (putU32 (len32 a.relations.length) ++ a.relations.flatMap putRelation)))
  | .blob blobs => putU8 1 ++ (putU32 (len32 blobs.length) ++ blobs.flatMap putBlob)
  | .caption triples => putU8 2 ++ (putU32 (len32 triples.length) ++ triples.flatMap putTriple)
  | .hdrStatic mastering maxContentLightLevel maxFrameAverageLightLevel =>
    putU8 3 ++ (putMastering mastering ++ (putOptU16 maxContentLightLevel ++ putOptU16 maxFrameAverageLightLevel))
  | .timecode t =>
    putU8 4 ++ (putU8 t.hours ++ (putU8 t.minutes ++ (putU8 t.seconds ++ (putU8 t.frames ++
      (putBool t.dropFrame ++ putOptU32 t.framerateQ16)))))
  | .wallClock unixNanos => putU8 5 ++ putU64 unixNanos.toUInt64

/-- The entries of a set in the order they are written in. -/
def carriedEntries (set : FrameMetaSet) : List FrameMeta :=
  [MetaKind.analytics, .blob, .caption, .hdrStatic, .timecode, .wallClock].filterMap set.get

def putMeta (set : FrameMetaSet) : List UInt8 :=
  putU8 (UInt8.ofNat (carriedEntries set).length) ++ (carriedEntries set).flatMap putEntry

/-! ## Reading -/

def f32 : Reader F32 := u32

def getBBox : Reader BBox := do
  let x ← f32
  let y ← f32
  let w ← f32
  let h ← f32
  return ⟨x, y, w, h⟩

def getKeypoint : Reader Keypoint := do
  let x ← f32
  let y ← f32
  let confidence ← f32
  return ⟨x, y, confidence⟩

/-- Read a mask; its geometry has to fit its bytes. -/
def getMask : Reader Mask := do
  let width ← u32
  let height ← u32
  let stride ← u32
  let data ← bytes
  match Mask.new width height stride data with
  | some mask => return mask
  | none => throw .badTag

def getNode : Reader AnalyticsNode := do
  match ← u8 with
  | 0 => do
    let bbox ← getBBox
    let label ← u32
    let confidence ← f32
    return .detection bbox label confidence
  | 1 => do
    let label ← u32
    let confidence ← f32
    return .classification label confidence
  | 2 => do
    let objectId ← u64
    return .tracking objectId
  | 3 => do
    let bbox ← getBBox
    let label ← u32
    let confidence ← f32
    let mask ← getMask
    return .segmentation bbox label confidence mask
  | 4 => do
    let bbox ← getBBox
    let id ← u32
    let label ← u32
    return .roi bbox id label
  | 5 => do
    let bbox ← getBBox
    let label ← u32
    let confidence ← f32
    let count ← u32
    let keypoints ← times getKeypoint count.toNat
    return .pose bbox label confidence keypoints
  | 6 => do
    let cx ← f32
    let cy ← f32
    let w ← f32
    let h ← f32
    let angleRadians ← f32
    let label ← u32
    let confidence ← f32
    return .orientedDetection cx cy w h angleRadians label confidence
  | _ => throw .badTag

/-- Read an edge of the analytics graph. -/
def getRelation : Reader Relation := do
  let fromNode ← u32
  let toNode ← u32
  let kind ← tagged relationKindFromU8
  return ⟨fromNode.toNat, toNode.toNat, kind⟩

def getBlob : Reader Blob := do
  let header ← str
  let payload ← bytes
  return ⟨header, payload⟩

def getTriple : Reader CaptionTriple := do
  let ccType ← u8
  let b0 ← u8
  let b1 ← u8
  return ⟨ccType, b0, b1⟩

def getChromaticity : Reader Chromaticity := do
  let x ← f32
  let y ← f32
  return ⟨x, y⟩

def getMastering : Reader (Option MasteringDisplay) := do
  let present ← bool
  if present then do
    let red ← getChromaticity
    let green ← getChromaticity
    let blue ← getChromaticity
    let whitePoint ← getChromaticity
    let maxLuminance ← f32
    let minLuminance ← f32
    return some ⟨(red, green, blue), whitePoint, maxLuminance, minLuminance⟩
  else return none

/-- Read an optional 16-bit word; a value that does not fit is refused even when it is absent. -/
def getOptU16 : Reader (Option UInt16) := do
  let present ← bool
  let v ← u32
  if v.toNat < 2 ^ 16 then return if present then some v.toUInt16 else none
  else throw .badTag

/-- Read an optional 32-bit word. -/
def getOptU32 : Reader (Option UInt32) := do
  let present ← bool
  let v ← u32
  return if present then some v else none

def getEntry : Reader FrameMeta := do
  match ← u8 with
  | 0 => do
    let n ← u32
    let nodes ← times getNode n.toNat
    let m ← u32
    let relations ← times getRelation m.toNat
    return .analytics ⟨nodes, relations, none⟩
  | 1 => do
    let n ← u32
    let blobs ← times getBlob n.toNat
    return .blob blobs
  | 2 => do
    let n ← u32
    let triples ← times getTriple n.toNat
    return .caption triples
  | 3 => do
    let mastering ← getMastering
    let maxContentLightLevel ← getOptU16
    let maxFrameAverageLightLevel ← getOptU16
    return .hdrStatic mastering maxContentLightLevel maxFrameAverageLightLevel
  | 4 => do
    let hours ← u8
    let minutes ← u8
    let seconds ← u8
    let frames ← u8
    let dropFrame ← bool
    let framerateQ16 ← getOptU32
    return .timecode ⟨hours, minutes, seconds, frames, dropFrame, framerateQ16⟩
  | 5 => do
    let v ← u64
    return .wallClock v.toInt64
  | _ => throw .badTag

def getEntries : Nat → FrameMetaSet → Reader FrameMetaSet
  | 0, set => return set
  | n + 1, set => do
    let m ← getEntry
    getEntries n (set.attach m)

def getMeta : Reader FrameMetaSet := do
  let count ← u8
  getEntries count.toNat .new

/-! ## What fits the format -/

/-- The bytes of a node's mask are counted by a 32-bit word. -/
def maskFits : AnalyticsNode → Prop
  | .segmentation _ _ _ mask => mask.data.length < 2 ^ 32
  | _ => True

/-- The keypoints of a node are counted by a 32-bit word. -/
def keypointsFit : AnalyticsNode → Prop
  | .pose _ _ _ keypoints => keypoints.length < 2 ^ 32
  | _ => True

/-- The byte strings and the node indices of an entry fit 32-bit words. -/
def fieldsFit : FrameMeta → Prop
  | .analytics a => (∀ n ∈ a.nodes, maskFits n) ∧
      ∀ r ∈ a.relations, r.fromNode < 2 ^ 32 ∧ r.toNode < 2 ^ 32
  | .blob blobs => ∀ b ∈ blobs, (utf8 b.header).length < 2 ^ 32 ∧ b.payload.length < 2 ^ 32
  | _ => True

/-- There is no class-name table, and the lists of an entry are counted by 32-bit words. -/
def isCarried : FrameMeta → Prop
  | .analytics a => a.classNames = none ∧ a.nodes.length < 2 ^ 32 ∧ a.relations.length < 2 ^ 32 ∧
      ∀ n ∈ a.nodes, keypointsFit n
  | .blob blobs => blobs.length < 2 ^ 32
  | .caption triples => triples.length < 2 ^ 32
  | _ => True

/-! ## Recovering an entry -/

theorem decodes_f32 (v : F32) : Decodes f32 (putF32 v) v := decodes_u32 v

theorem decodes_getBBox (b : BBox) : Decodes getBBox (putBBox b) b :=
  (decodes_f32 b.x).bind ((decodes_f32 b.y).bind ((decodes_f32 b.w).bind ((decodes_f32 b.h).map _)))

theorem decodes_getKeypoint (k : Keypoint) : Decodes getKeypoint (putKeypoint k) k :=
  (decodes_f32 k.x).bind ((decodes_f32 k.y).bind ((decodes_f32 k.confidence).map _))

theorem decodes_getMask {mask : Mask} (h : mask.data.length < 2 ^ 32) :
    Decodes getMask (putU32 mask.width ++ (putU32 mask.height ++ (putU32 mask.stride ++ putBytes mask.data))) mask := by
  have hnew : Mask.new mask.width mask.height mask.stride mask.data = some mask :=
    dif_pos ⟨mask.width_le, mask.rows_le⟩
  refine (decodes_u32 mask.width).bind ((decodes_u32 mask.height).bind
    ((decodes_u32 mask.stride).bind ((decodes_bytes h).last ?_)))
  rw [hnew]
  exact .pure mask

theorem decodes_getNode {n : AnalyticsNode} (hmask : maskFits n) (hkeypoints : keypointsFit n) :
    Decodes getNode (putNode n) n := by
  cases n with
  | detection bbox label confidence =>
    exact (decodes_u8 0).bind ((decodes_getBBox bbox).bind ((decodes_u32 label).bind ((decodes_f32 confidence).map _)))
  | classification label confidence =>
    exact (decodes_u8 1).bind ((decodes_u32 label).bind ((decodes_f32 confidence).map _))
  | tracking objectId => exact (decodes_u8 2).bind ((decodes_u64 objectId).map _)
  | segmentation bbox label confidence mask =>
    exact (decodes_u8 3).bind ((decodes_getBBox bbox).bind ((decodes_u32 label).bind
      ((decodes_f32 confidence).bind ((decodes_getMask hmask).map _))))
  | roi bbox id label =>
    exact (decodes_u8 4).bind ((decodes_getBBox bbox).bind ((decodes_u32 id).bind ((decodes_u32 label).map _)))
  | pose bbox label confidence keypoints =>
    refine (decodes_u8 5).bind ((decodes_getBBox bbox).bind ((decodes_u32 label).bind
      ((decodes_f32 confidence).bind ?_)))
    refine (decodes_u32 (len32 keypoints.length)).bind ?_
    rw [toNat_len32 hkeypoints]
    exact (Decodes.times fun k _ => decodes_getKeypoint k).map _
  | orientedDetection cx cy w h angleRadians label confidence =>
    exact (decodes_u8 6).bind ((decodes_f32 cx).bind ((decodes_f32 cy).bind ((decodes_f32 w).bind
      ((decodes_f32 h).bind ((decodes_f32 angleRadians).bind ((decodes_u32 label).bind
        ((decodes_f32 confidence).map _)))))))

theorem decodes_getRelation {r : Relation} (hfrom : r.fromNode < 2 ^ 32) (hto : r.toNode < 2 ^ 32) :
    Decodes getRelation (putRelation r) r := by
  obtain ⟨fromNode, toNode, kind⟩ := r
  have hkind : relationKindFromU8 (relationKindToU8 kind) = .ok kind := by cases kind <;> rfl
  have h : Decodes getRelation (putRelation ⟨fromNode, toNode, kind⟩)
      ⟨(len32 fromNode).toNat, (len32 toNode).toNat, kind⟩ :=
    (decodes_u32 (len32 fromNode)).bind ((decodes_u32 (len32 toNode)).bind ((decodes_tagged hkind).map _))
  rwa [toNat_len32 hfrom, toNat_len32 hto] at h

theorem decodes_getBlob {b : Blob} (hheader : (utf8 b.header).length < 2 ^ 32)
    (hpayload : b.payload.length < 2 ^ 32) : Decodes getBlob (putBlob b) b :=
  (decodes_str hheader).bind ((decodes_bytes hpayload).map _)

theorem decodes_getTriple (t : CaptionTriple) : Decodes getTriple (putTriple t) t :=
  (decodes_u8 t.ccType).bind ((decodes_u8 t.b0).bind ((decodes_u8 t.b1).map _))

theorem decodes_getChromaticity (c : Chromaticity) : Decodes getChromaticity (putChromaticity c) c :=
  (decodes_f32 c.x).bind ((decodes_f32 c.y).map _)

theorem decodes_getMastering (m : Option MasteringDisplay) : Decodes getMastering (putMastering m) m := by
  cases m with
  | none =>
    exact (decodes_bool false).last (.pure none)
  | some m =>
    exact (decodes_bool true).bind ((decodes_getChromaticity _).bind
      ((decodes_getChromaticity _).bind ((decodes_getChromaticity _).bind
        ((decodes_getChromaticity m.whitePoint).bind ((decodes_f32 m.maxLuminance).bind
          ((decodes_f32 m.minLuminance).map _))))))

theorem decodes_getOptU16 (v : Option UInt16) : Decodes getOptU16 (putOptU16 v) v := by
  have hlt : ((v.getD 0).toUInt32).toNat < 2 ^ 16 := by
    exact (v.getD 0).toNat_lt
  refine (decodes_bool v.isSome).bind ((decodes_u32 _).last ?_)
  simp only [hlt, if_true]
  cases v with
  | none => exact .pure none
  | some v =>
    have hv : v.toUInt32.toUInt16 = v := UInt16.toUInt16_toUInt32 v
    simp only [Option.isSome_some, Option.getD_some, if_true, hv]
    exact .pure (some v)

theorem decodes_getOptU32 (v : Option UInt32) : Decodes getOptU32 (putOptU32 v) v := by
  refine (decodes_bool v.isSome).bind ((decodes_u32 (v.getD 0)).last ?_)
  cases v with
  | none => exact .pure none
  | some v => exact .pure (some v)

variable {m : FrameMeta}

theorem decodes_getEntry (hfields : fieldsFit m) (hcarried : isCarried m) : Decodes getEntry (putEntry m) m := by
  cases m with
  | analytics a =>
    obtain ⟨nodes, relations, classNames⟩ := a
    obtain ⟨rfl, hnodes, hrelations, hkeypoints⟩ := hcarried
    obtain ⟨hmasks, hindices⟩ := hfields
    refine (decodes_u8 0).bind ((decodes_u32 (len32 nodes.length)).bind ?_)
    simp only [toNat_len32 hnodes]
    refine (Decodes.times fun n hn => decodes_getNode (hmasks n hn) (hkeypoints n hn)).bind
      ((decodes_u32 (len32 relations.length)).bind ?_)
    simp only [toNat_len32 hrelations]
    exact (Decodes.times fun r hr => decodes_getRelation (hindices r hr).1 (hindices r hr).2).map _
  | blob blobs =>
    refine (decodes_u8 1).bind ((decodes_u32 (len32 blobs.length)).bind ?_)
    simp only [toNat_len32 hcarried]
    exact (Decodes.times fun b hb => decodes_getBlob (hfields b hb).1 (hfields b hb).2).map _
  | caption triples =>
    refine (decodes_u8 2).bind ((decodes_u32 (len32 triples.length)).bind ?_)
    simp only [toNat_len32 hcarried]
    exact (Decodes.times fun t _ => decodes_getTriple t).map _
  | hdrStatic mastering maxContentLightLevel maxFrameAverageLightLevel =>
    exact (decodes_u8 3).bind ((decodes_getMastering mastering).bind ((decodes_getOptU16 maxContentLightLevel).bind
        ((decodes_getOptU16 maxFrameAverageLightLevel).map _)))
  | timecode t =>
    exact (decodes_u8 4).bind ((decodes_u8 t.hours).bind ((decodes_u8 t.minutes).bind
      ((decodes_u8 t.seconds).bind ((decodes_u8 t.frames).bind ((decodes_bool t.dropFrame).bind
        ((decodes_getOptU32 t.framerateQ16).map _))))))
  | wallClock unixNanos =>
    refine (decodes_u8 5).bind ((decodes_u64 unixNanos.toUInt64).last ?_)
    exact .pure _

/-! ## What an entry that is read satisfies -/

theorem yields_times {α : Type} {read : Reader α} {P : α → Prop} (n : UInt32) (h : Yields read P) :
    Yields (times read n.toNat) fun as => as.length < 2 ^ 32 ∧ ∀ a ∈ as, P a :=
  (Yields.times n.toNat h).mono fun _ has => ⟨has.1 ▸ n.toNat_lt, has.2⟩

theorem yields_getNode : Yields getNode keypointsFit := by
  refine .skip u8 fun tag => ?_
  split
  · exact .skip _ fun _ => .skip _ fun _ => .skip _ fun _ => .pure trivial
  · exact .skip _ fun _ => .skip _ fun _ => .pure trivial
  · exact .skip _ fun _ => .pure trivial
  · exact .skip _ fun _ => .skip _ fun _ => .skip _ fun _ => .skip _ fun _ => .pure trivial
  · exact .skip _ fun _ => .skip _ fun _ => .skip _ fun _ => .pure trivial
  · refine .skip _ fun _ => .skip _ fun _ => .skip _ fun _ => .skip _ fun n => ?_
    exact (yields_times n (.trivial getKeypoint)).bind fun _ h => .pure h.1
  · exact .skip _ fun _ => .skip _ fun _ => .skip _ fun _ => .skip _ fun _ => .skip _ fun _ =>
      .skip _ fun _ => .skip _ fun _ => .pure trivial
  · exact .throw _

theorem yields_getEntry : Yields getEntry isCarried := by
  refine .skip u8 fun tag => ?_
  split
  · refine .skip _ fun n => (yields_times n yields_getNode).bind fun _ hnodes => .skip _ fun m => ?_
    exact (yields_times m (.trivial getRelation)).bind fun _ hrelations =>
      .pure ⟨rfl, hnodes.1, hrelations.1, hnodes.2⟩
  · exact .skip _ fun n => (yields_times n (.trivial getBlob)).bind fun _ h => .pure h.1
  · exact .skip _ fun n => (yields_times n (.trivial getTriple)).bind fun _ h => .pure h.1
  · exact .skip _ fun _ => .skip _ fun _ => .skip _ fun _ => .pure trivial
  · exact .skip _ fun _ => .skip _ fun _ => .skip _ fun _ => .skip _ fun _ => .skip _ fun _ =>
      .skip _ fun _ => .pure trivial
  · exact .skip _ fun _ => .pure trivial
  · exact .throw _

/-! ## The set -/

variable {set : FrameMetaSet}

theorem entries_attach (h : m.kind ∉ set.entries.map FrameMeta.kind) : (set.attach m).entries = set.entries ++ [m] := by
  have hnone : set.entries.findIdx? (fun other => other.kind == m.kind) = none := by
    refine List.findIdx?_eq_none_iff.2 fun other hother => ?_
    rw [beq_eq_false_iff_ne]
    exact fun heq => h (List.mem_map.2 ⟨other, hother, heq⟩)
  show FrameMetaSet.attachEntries set.entries m = _
  rw [FrameMetaSet.attachEntries, hnone]

theorem entries_foldl_attach {ms : List FrameMeta} (h : ((set.entries ++ ms).map FrameMeta.kind).Nodup) :
    (ms.foldl FrameMetaSet.attach set).entries = set.entries ++ ms := by
  induction ms generalizing set with
  | nil => rw [List.foldl_nil, List.append_nil]
  | cons m ms ih =>
    have hnew : m.kind ∉ set.entries.map FrameMeta.kind := by
      rw [List.map_append, List.map_cons] at h
      intro hmem
      exact (List.nodup_append.1 h).2.2 _ hmem _ List.mem_cons_self rfl
    have hentries := entries_attach hnew
    rw [List.foldl_cons, ih, hentries, List.append_assoc, List.singleton_append]
    rwa [hentries, List.append_assoc, List.singleton_append]

theorem mem_attach {other : FrameMeta} (h : other ∈ (set.attach m).entries) : other ∈ set.entries ∨ other = m := by
  have hmem : other ∈ FrameMetaSet.attachEntries set.entries m := h
  unfold FrameMetaSet.attachEntries at hmem
  split at hmem
  · exact List.mem_or_eq_of_mem_set hmem
  · simpa using hmem

theorem of_get {kind : MetaKind} (h : set.get kind = some m) : m ∈ set.entries ∧ m.kind = kind := by
  have hkind := List.find?_some h
  exact ⟨List.mem_of_find?_eq_some h, beq_iff_eq.1 hkind⟩

theorem get_kind (h : m ∈ set.entries) : set.get m.kind = some m := by
  rcases hget : set.get m.kind with _ | other
  · have hnone := List.find?_eq_none.1 hget m h
    simp at hnone
  · obtain ⟨hother, hkind⟩ := of_get hget
    rw [List.inj_on_of_nodup_map set.nodup_kinds hother h hkind]

theorem kinds_filterMap_get (set : FrameMetaSet) (kinds : List MetaKind) :
    ((kinds.filterMap set.get).map FrameMeta.kind).Sublist kinds := by
  induction kinds with
  | nil => exact .refl []
  | cons kind kinds ih =>
    rcases hget : set.get kind with _ | m
    · rw [List.filterMap_cons_none hget]
      exact ih.cons kind
    · rw [List.filterMap_cons_some hget, List.map_cons, (of_get hget).2]
      exact ih.cons_cons kind

theorem nodup_carriedEntries (set : FrameMetaSet) : ((carriedEntries set).map FrameMeta.kind).Nodup :=
  (kinds_filterMap_get set _).nodup (by decide)

theorem carriedEntries_perm (set : FrameMetaSet) : (carriedEntries set).Perm set.entries := by
  refine (List.perm_ext_iff_of_nodup (nodup_carriedEntries set).of_map set.nodup_kinds.of_map).2
    fun m => ?_
  rw [carriedEntries, List.mem_filterMap]
  constructor
  · rintro ⟨kind, -, hget⟩
    exact (of_get hget).1
  · intro hm
    exact ⟨m.kind, by cases m <;> simp [FrameMeta.kind], get_kind hm⟩

theorem decodes_getEntries {ms : List FrameMeta} (set : FrameMetaSet) (h : ∀ m ∈ ms, fieldsFit m ∧ isCarried m) :
    Decodes (getEntries ms.length set) (ms.flatMap putEntry) (ms.foldl FrameMetaSet.attach set) := by
  induction ms generalizing set with
  | nil => exact .pure set
  | cons m ms ih =>
    obtain ⟨hfields, hcarried⟩ := h m List.mem_cons_self
    exact (decodes_getEntry hfields hcarried).bind (ih (set.attach m) fun m' hm => h m' (List.mem_cons_of_mem m hm))

theorem decodes_getMeta (h : ∀ m ∈ set.entries, fieldsFit m ∧ isCarried m) :
    ∃ set' : FrameMetaSet, Decodes getMeta (putMeta set) set' ∧ set'.entries.Perm set.entries := by
  have hcount : (UInt8.ofNat (carriedEntries set).length).toNat = (carriedEntries set).length := by
    have hle : (carriedEntries set).length ≤ 6 := List.length_filterMap_le _ _
    rw [UInt8.toNat_ofNat']
    omega
  have hperm := carriedEntries_perm set
  refine ⟨(carriedEntries set).foldl FrameMetaSet.attach .new, (decodes_u8 _).bind ?_, ?_⟩
  · rw [hcount]
    exact decodes_getEntries .new fun m hm => h m (hperm.mem_iff.1 hm)
  · rw [entries_foldl_attach (nodup_carriedEntries set)]
    exact hperm

theorem yields_getEntries (n : Nat) (h : ∀ m ∈ set.entries, isCarried m) :
    Yields (getEntries n set) fun set' => ∀ m ∈ set'.entries, isCarried m := by
  induction n generalizing set with
  | zero => exact .pure h
  | succ n ih =>
    refine yields_getEntry.bind fun m hm => ih fun other hother => ?_
    rcases mem_attach hother with hold | rfl
    · exact h other hold
    · exact hm

theorem yields_getMeta : Yields getMeta fun set => ∀ m ∈ set.entries, isCarried m :=
  .skip u8 fun n => yields_getEntries n.toNat (by simp [FrameMetaSet.new])

end Wire

end Glass2Glass
