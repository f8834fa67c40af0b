import Glass2Glass.Gst.RoundTrip

/-!
# Descriptions of batches

A batch quotes the descriptions of its streams. The splitter finds them again when no stream's tag
closes the string it stands in, and then the batch is read back exactly when every stream is. The
last theorem puts the caps of every kind together.
-/

namespace Glass2Glass.Gst

open Text List

/-! ## Strings that stay closed -/

def capsTag : Caps → Option CodecTag
  | .compressedVideo codec .. => videoTag codec
  | .audio format .. => audioTag format
  | _ => none

/-- A tag that leaves the splitter inside the string it stands in, both in the description of the
batch, where a bracket is open, and in the list of its streams. -/
def tagQuotes (tag : CodecTag) : Bool :=
  match tag.tagNamespace with
  | .riff => true
  | .mov => [0, 1].all fun depth =>
      scan (.inString depth) (fourcc tag.tag) == some (.inString depth)

variable {depth : Int32}

theorem scan_inString_printFields {media : List Char} {fields : FieldTexts}
    (hmedia : scan (.inString depth) media = some (.inString depth)) (hfields : ∀ f ∈ declared fields, FieldOk f) :
    scan (.inString depth) (printFields media fields) = some (.inString depth) := by
  rw [printFields_eq]
  refine scan_append_of hmedia (scan_inString ?_ depth)
  intro hmem
  obtain ⟨f, hf, hquote⟩ := List.mem_flatMap.1 hmem
  rcases List.mem_cons.1 hquote with hquote | hquote
  · exact absurd hquote (by decide)
  · exact (hfields f hf).quote_notMem hquote

theorem scan_inString_tagged (kind : StreamKind) {tag : CodecTag} (h : tagQuotes tag)
    (hdepth : depth ∈ [(0 : Int32), 1]) :
    scan (.inString depth) (taggedGstMediaType kind tag) = some (.inString depth) := by
  obtain ⟨_ | _, tag⟩ := tag
  · refine scan_inString ?_ depth
    have hname : quote ∉ kind.name.toList ∧ quote ∉ (riffTagField kind).toList := by
      cases kind <;> decide
    have hsubtype : quote ∉ RIFF_UNKNOWN_SUBTYPE.toList := by decide
    have hnumber : quote ∉ decimal tag.toNat := (word_decimal _).notMem (by decide)
    have hchars : quote ≠ '/' ∧ quote ≠ ',' ∧ quote ≠ '=' := by decide
    simp [taggedGstMediaType, hname, hsubtype, hnumber, hchars]
  · rw [taggedGstMediaType_mov]
    have hstarts : quote ∉ movMedia kind [] := by cases kind <;> decide
    have happend : movMedia kind (fourcc tag) = movMedia kind [] ++ fourcc tag := by simp [movMedia]
    have hquotes := List.all_eq_true.1 h depth hdepth
    rw [happend]
    exact scan_append_of (scan_inString hstarts depth) (beq_iff_eq.1 hquotes)

variable {c : Caps}

/-- The description of caps other than a batch stays inside the string when their tag does. -/
theorem scan_inString_toGstString (hown : leafOwnDescription c)
    (htag : (capsTag c).all tagQuotes) (hdepth : depth ∈ [(0 : Int32), 1]) :
    scan (.inString depth) (toGstString c) = some (.inString depth) := by
  have hcodecs : ∀ codec ∈ [VideoCodec.h264, .h265, .av1, .vp8, .vp9, .mjpeg, .png, .webP,
      .mpeg4Part2, .mpeg2, .sorensonH263, .vp6 false, .vp6 true, .jpegXs, .vc1, .pnm, .vp6Plain,
      .theora, .proRes .proxy, .dnxHd], quote ∉ codecGstMediaType codec := by decide
  have hformats : ∀ f ∈ [AudioFormat.aac, .opus, .mp2, .ac3, .mp3, .speex, .flac, .vorbis,
      .pcmS16Le, .pcmF32Le, .pcmS24Le, .pcmS32Le, .pcmU8, .mulaw, .alaw, .imaAdpcm],
      quote ∉ (audioGstMediaType f).1 := by decide
  cases c with
  | rawVideo f w h r i cl =>
    exact scan_inString_printFields (scan_inString (by decide) depth) (fieldOk_rawFields f w h r i cl)
  | compressedVideo codec w h r cl al =>
    refine scan_inString_printFields ?_ (fieldOk_videoFields codec w h r cl al)
    cases codec with
    | tagged tag => exact scan_inString_tagged .video (by simpa [capsTag, videoTag] using htag) hdepth
    | vp6 alpha => cases alpha <;> exact scan_inString (hcodecs _ (by decide)) depth
    | proRes v => exact scan_inString (hcodecs (.proRes .proxy) (by decide)) depth
    | _ => exact scan_inString (hcodecs _ (by decide)) depth
  | audio f ch sr l =>
    refine scan_inString_printFields ?_ (fieldOk_audioFields f ch sr l)
    cases f with
    | tagged tag => exact scan_inString_tagged .audio (by simpa [capsTag, audioTag] using htag) hdepth
    | _ => exact scan_inString (hformats _ (by decide)) depth
  | byteStream e =>
    refine scan_inString ?_ depth
    cases e <;> decide
  | text f | subPicture f | closedCaption f =>
    refine scan_inString ?_ depth
    cases f <;> decide
  | klv | onvifMetadata => exact scan_inString (by decide) depth
  | tensor d s l | batch streams => simp [leafOwnDescription] at hown

/-! ## The list of streams -/

def quoted (text : List Char) : List Char := quote :: (text ++ [quote])

theorem scan_quoted {text : List Char} (h : scan (.inString depth) text = some (.inString depth)) :
    scan ⟨depth, false⟩ (quoted text) = some ⟨depth, false⟩ := by
  have hopen : scan ⟨depth, false⟩ [quote] = some (.inString depth) := by
    simp [scan_cons, Scan.step, Scan.inString]
  have hclose : scan (.inString depth) [quote] = some ⟨depth, false⟩ := by
    simp [scan_cons, Scan.step, Scan.inString]
  show scan ⟨depth, false⟩ ([quote] ++ (text ++ [quote])) = some ⟨depth, false⟩
  exact scan_append_of hopen (scan_append_of h hclose)

/-- Streams whose descriptions stay inside their strings. -/
def StreamsQuote (streams : List Caps) : Prop :=
  ∀ c ∈ streams, ∀ depth ∈ [(0 : Int32), 1], scan (.inString depth) (toGstString c) = some (.inString depth)

variable {streams : List Caps}

theorem scan_quotedStreams (h : StreamsQuote streams) (first : Bool) :
    scan ⟨1, false⟩ (quotedStreams first streams) = some ⟨1, false⟩ := by
  induction streams generalizing first with
  | nil => rfl
  | cons c streams ih =>
    obtain ⟨hc, hstreams⟩ := List.forall_mem_cons.1 h
    have hcomma : scan ⟨1, false⟩ (if first then [] else [',']) = some ⟨1, false⟩ := by
      cases first <;> decide
    exact scan_append_of (scan_append_of hcomma (scan_quoted (hc 1 (by decide)))) (ih hstreams false)

theorem splitTopCommas_quotedStreams (h : StreamsQuote (c :: streams)) :
    splitTopCommas (quotedStreams true (c :: streams)) = (c :: streams).map fun c => quoted (toGstString c) := by
  have htail : ∀ (streams : List Caps), StreamsQuote streams → ∀ a, scan .top a = some .top →
      splitTopCommas (a ++ quotedStreams false streams) =
        a :: streams.map fun c => quoted (toGstString c) := by
    intro streams
    induction streams with
    | nil =>
      intro _ a ha
      rw [quotedStreams, append_nil, splitTopCommas, splitFrom_of_scan ha, map_nil]
    | cons c streams ih =>
      intro hquote a ha
      obtain ⟨hc, hstreams⟩ := List.forall_mem_cons.1 hquote
      have hstep := ih hstreams (quoted (toGstString c)) (scan_quoted (hc 0 (by decide)))
      have hcons : quotedStreams false (c :: streams) =
          ',' :: (quoted (toGstString c) ++ quotedStreams false streams) := by
        rfl
      rw [hcons, splitTopCommas_append_comma ha, hstep, map_cons]
  obtain ⟨hc, hstreams⟩ := List.forall_mem_cons.1 h
  have hcons : quotedStreams true (c :: streams) =
      quoted (toGstString c) ++ quotedStreams false streams := by
    rfl
  rw [hcons, htail streams hstreams _ (scan_quoted (hc 0 (by decide))), map_cons]

/-! ## Combining alternatives -/

theorem foldlM_extendBatches_singletons (streams acc : List Caps) :
    (streams.map ([·])).foldlM extendBatches [acc] = some [acc ++ streams] := by
  induction streams generalizing acc with
  | nil => simp
  | cons c streams ih =>
    have hstep : extendBatches [acc] [c] = some [acc ++ [c]] := rfl
    rw [map_cons, foldlM_cons, hstep]
    simpa using ih (acc ++ [c])

theorem singletons_of_foldlM_extendBatches {alternatives : List (List Caps)}
    {batches : List (List Caps)} {full : List Caps} (h : alternatives.foldlM extendBatches batches = some [full]) :
    ∃ acc streams, batches = [acc] ∧ alternatives = streams.map ([·]) ∧ full = acc ++ streams := by
  induction alternatives generalizing batches with
  | nil => exact ⟨full, [], by simpa using h, rfl, by simp⟩
  | cons a alternatives ih =>
    rw [foldlM_cons, Option.bind_eq_bind, Option.bind_eq_some_iff] at h
    obtain ⟨next, hnext, hrest⟩ := h
    obtain ⟨acc, streams, rfl, rfl, rfl⟩ := ih hrest
    rw [extendBatches, Option.ite_none_left_eq_some, Option.some.injEq] at hnext
    obtain ⟨-, hflat⟩ := hnext
    have hlen := congrArg List.length hflat
    simp only [length_flatMap, length_map, map_const', sum_replicate_nat, length_singleton] at hlen
    obtain ⟨b, rfl⟩ := List.length_eq_one_iff.1 (Nat.eq_one_of_mul_eq_one_right hlen)
    obtain ⟨c, rfl⟩ := List.length_eq_one_iff.1 (Nat.eq_one_of_mul_eq_one_left hlen)
    have hacc : b ++ [c] = acc := by simpa using hflat
    exact ⟨b, c :: streams, rfl, rfl, by simp [← hacc]⟩

theorem trim_between {a b : Char} (ha : isWhitespace a = false) (hb : isWhitespace b = false)
    (s : List Char) : trim (a :: (s ++ [b])) = a :: (s ++ [b]) := by
  refine trim_of_tight ⟨fun c hc => ?_, fun c hc => ?_⟩
  · obtain rfl : a = c := Option.some.inj hc
    exact ha
  · have hlast : (a :: (s ++ [b])).getLast? = some b := by simp [List.getLast?_cons]
    obtain rfl : b = c := Option.some.inj (hlast.symm.trans hc)
    exact hb

/-- The list of streams of a batch, in its brackets. -/
def streamsValue (streams : List Caps) : List Char := '<' :: (quotedStreams true streams ++ ['>'])

theorem toGstString_batch (streams : List Caps) : toGstString (.batch streams) =
    printFields "multistream/x-analytics-batch".toList [("streams", some (streamsValue streams))] := by
  have hopening : batchOpening =
      "multistream/x-analytics-batch".toList ++ ',' :: ("streams".toList ++ ['=', '<']) := by
    decide
  have hpush : printFields "multistream/x-analytics-batch".toList
      [("streams", some (streamsValue streams))] = "multistream/x-analytics-batch".toList ++
        ',' :: ("streams".toList ++ '=' :: streamsValue streams) := rfl
  rw [toGstString, hopening, hpush, streamsValue]
  simp only [append_assoc, cons_append, nil_append]

theorem scan_streamsValue (h : StreamsQuote streams) : scan .top (streamsValue streams) = some .top := by
  have hopen : scan .top ['<'] = some ⟨1, false⟩ := by decide
  have hclose : scan ⟨1, false⟩ ['>'] = some .top := by decide
  show scan .top (['<'] ++ (quotedStreams true streams ++ ['>'])) = some .top
  exact scan_append_of hopen (scan_append_of (scan_quotedStreams h true) hclose)

theorem parseFieldVal_streamsValue (streams : List Caps) :
    parseFieldVal (streamsValue streams) = .one (streamsValue streams) := by
  have htrim : trim (streamsValue streams) = streamsValue streams :=
    trim_between (by decide) (by decide) _
  have hrange : enclosed '[' ']' (streamsValue streams) = none :=
    enclosed_eq_none (by rintro c ⟨⟩; decide)
  have hlist : enclosed '\x7b' '\x7d' (streamsValue streams) = none :=
    enclosed_eq_none (by rintro c ⟨⟩; decide)
  simp only [parseFieldVal, listOrOne, htrim, hrange, hlist, Option.map_none]

theorem fromGstString_streamsValue (h : StreamsQuote streams) : fromGstString (toGstString (.batch streams)) =
      batchSet fromGstString (streamsValue streams) := by
  have hmedia : mediaReads "multistream/x-analytics-batch".toList .batch := by decide
  have hfields : ∀ f ∈ declared [("streams", some (streamsValue streams))], FieldCloses f := by
    intro f hf
    obtain rfl : f = ("streams", streamsValue streams) := List.mem_singleton.1 hf
    have hkey : Word "streams".toList ∧ '=' ∉ "streams".toList := by decide
    exact ⟨hkey.1, hkey.2, scan_streamsValue h⟩
  have hread : readFields [("streams", some (streamsValue streams))] =
      [("streams".toList, .one (streamsValue streams))] := by
    rw [← parseFieldVal_streamsValue]
    rfl
  rw [toGstString_batch, fromGstString_printFields hmedia hfields, hread]
  simp only [MediaType.capsSet, fieldOf, List.find?_cons_of_pos, beq_self_eq_true, Option.map_some]

theorem fromGstString_batch (h : StreamsQuote (c :: streams)) :
    fromGstString (toGstString (.batch (c :: streams))) = (do
      let sets ← (c :: streams).mapM fun c => fromGstString (toGstString c)
      return ⟨← batchAlternatives (sets.map CapsSet.alternatives)⟩) := by
  have hquote : ∀ t, trim (quoted t) = quoted t := trim_between (by decide) (by decide)
  have htexts : (((c :: streams).map fun c => quoted (toGstString c)).map trim).filter
      (fun s => !s.isEmpty) = (c :: streams).map fun c => quoted (toGstString c) := by
    rw [map_map, List.filter_eq_self.2]
    · exact map_congr_left fun c _ => hquote (toGstString c)
    · intro t ht
      obtain ⟨c, -, rfl⟩ := List.mem_map.1 ht
      rw [Function.comp_apply, hquote]
      rfl
  have hinner : ∀ t, (enclosed quote quote (quoted t)).bind fromGstString = fromGstString t := by
    intro t
    rw [quoted, enclosed_append, Option.bind_some]
  rw [fromGstString_streamsValue h, batchSet, streamsValue, enclosed_append]
  simp only [Option.bind_eq_bind, Option.bind_some, splitTopCommas_quotedStreams h, htexts,
    mapM_map, Function.comp_def, hinner]

/-! ## Every kind of caps -/

/-- The tags of a batch's streams stay inside their strings. -/
def quotesClose : Caps → Bool
  | .batch streams => streams.all fun c => (capsTag c).all tagQuotes
  | _ => true

/-- Caps that are read back: those other than a batch of `leafReads`, and batches of them. -/
def streamsRead : Caps → Bool
  | .batch streams => streams.all leafReads
  | c => leafReads c

theorem fromGstString_batch_iff (h : StreamsQuote (c :: streams)) :
    fromGstString (toGstString (.batch (c :: streams))) = some (.one (.batch (c :: streams))) ↔
      ∀ s ∈ c :: streams, fromGstString (toGstString s) = some (.one s) := by
  rw [fromGstString_batch h]
  generalize c :: streams = streams
  simp only [Option.bind_eq_bind, Option.bind_eq_some_iff, mapM_eq_some_iff]
  constructor
  · rintro ⟨sets, hsets, alternatives, halternatives, heq⟩
    have hone : alternatives = [Caps.batch streams] := congrArg CapsSet.alternatives (Option.some.inj heq)
    simp only [batchAlternatives, Option.bind_eq_bind, Option.bind_eq_some_iff] at halternatives
    obtain ⟨batches, hfold, hbatches⟩ := halternatives
    rw [← Option.some.inj hbatches] at hone
    obtain ⟨full, rfl, hfull⟩ := List.map_eq_singleton_iff.1 hone
    obtain ⟨acc, singles, hacc, hmap, rfl⟩ := singletons_of_foldlM_extendBatches hfold
    obtain rfl : [] = acc := List.singleton_inj.1 hacc
    obtain rfl : singles = streams := Caps.batch.inj hfull
    have hsets' : sets = singles.map CapsSet.one := by
      have hinjective : Function.Injective CapsSet.alternatives := by
        rintro ⟨a⟩ ⟨b⟩ hab
        exact congrArg CapsSet.mk hab
      refine List.map_injective_iff.2 hinjective ?_
      rw [hmap, map_map]
      rfl
    rw [hsets', forall₂_map_right_iff, forall₂_same] at hsets
    exact hsets
  · intro hread
    refine ⟨streams.map CapsSet.one, ?_, [.batch streams], ?_, rfl⟩
    · rw [forall₂_map_right_iff, forall₂_same]
      exact hread
    · have hmap : (streams.map CapsSet.one).map CapsSet.alternatives = streams.map ([·]) := by
        rw [map_map]
        rfl
      rw [hmap, batchAlternatives, foldlM_extendBatches_singletons]
      rfl

/-- Caps with a description of their own, none of whose streams closes a string that is not its own,
parse back from what they print exactly when the parser knows every media type printed and every MOV
tag survives the splitter, the trimming and the encoding. -/
theorem fromGstString_toGstString_iff (c : Caps) (hown : ownDescription c) (hquotes : quotesClose c) :
    fromGstString (toGstString c) = some (.one c) ↔ streamsRead c := by
  cases c with
  | batch streams =>
    simp only [ownDescription, Bool.and_eq_true, all_eq_true] at hown
    obtain ⟨hne, hown⟩ := hown
    obtain ⟨c, streams, rfl⟩ : ∃ c rest, streams = c :: rest := by
      cases streams with
      | nil => simp at hne
      | cons c rest => exact ⟨c, rest, rfl⟩
    have hstreams : StreamsQuote (c :: streams) := fun s hs depth hdepth =>
      scan_inString_toGstString (hown s hs) (List.all_eq_true.1 hquotes s hs) hdepth
    rw [fromGstString_batch_iff hstreams, streamsRead, all_eq_true]
    exact forall₂_congr fun s hs => fromGstString_leaf_iff (hown s hs)
  | _ => exact fromGstString_leaf_iff hown

/-- A batch of audio under the QuickTime tag `ulaw` and of KLV metadata parses back. -/
theorem fromGstString_toGstString_ulaw :
    ownDescription (.batch [.audio (.tagged ⟨.mov, 0x77616C75⟩) 1 8000 .UNSPECIFIED, .klv]) = true ∧
    quotesClose (.batch [.audio (.tagged ⟨.mov, 0x77616C75⟩) 1 8000 .UNSPECIFIED, .klv]) = true ∧
    fromGstString (toGstString (.batch [.audio (.tagged ⟨.mov, 0x77616C75⟩) 1 8000 .UNSPECIFIED, .klv])) =
        some (.one (.batch [.audio (.tagged ⟨.mov, 0x77616C75⟩) 1 8000 .UNSPECIFIED, .klv])) :=
  ⟨by decide, by decide, (fromGstString_toGstString_iff _ (by decide) (by decide)).2 (by decide)⟩

/-- Video under the QuickTime tag `raw `, which ends in a space: its own description with a width
does not parse. -/
theorem rawTag_not_read_back :
    ownDescription (.compressedVideo (.tagged ⟨.mov, 0x20776172⟩) (.fixed 640) .any .any .UNKNOWN .unspecified) = true ∧
    fromGstString (toGstString (.compressedVideo (.tagged ⟨.mov, 0x20776172⟩) (.fixed 640) .any .any
      .UNKNOWN .unspecified)) = none := by
  decide

end Glass2Glass.Gst
