import Glass2Glass.Caps.Set

/-!
# Fixation

Phase 2 of negotiation: every ranged field collapses to one value. `fixate` takes a range's minimum,
`fixateToward` the value nearest to the same field of preferred caps. Whatever is picked lies inside
the caps it was picked from, which is what lets a candidate inherit the membership of the alternative
it comes from.
-/

namespace Glass2Glass

open PartialMeet

namespace Caps

mutual

/-- Every ranged field is fixed. Raw PCM must also name its rate and its channels. -/
def isFixed : Caps → Bool
  | batch streams => isFixedStreams streams
  | audio format channels sampleRate _ =>
    !(isPcm format && (sampleRate == ANY_SAMPLE_RATE || channels == ANY_CHANNELS))
  | compressedVideo _ w h r _ _ => w.isFixed && h.isFixed && r.isFixed
  | rawVideo _ w h r _ _ => w.isFixed && h.isFixed && r.isFixed
  | _ => true

def isFixedStreams : List Caps → Bool
  | [] => true
  | c :: cs => isFixed c && isFixedStreams cs

end

mutual

/-- Collapse every ranged field to one value. An unconstrained field has no value to pick, except
that "any channels" of raw PCM becomes a stereo placeholder. -/
def fixate : Caps → Except G2gError Caps
  | compressedVideo codec w h r cl al => do
    let width ← okOr w.fixate .capsMismatch
    let height ← okOr h.fixate .capsMismatch
    let framerate ← okOr r.fixate .capsMismatch
    return compressedVideo codec width height framerate cl al
  | rawVideo format w h r i cl => do
    let width ← okOr w.fixate .capsMismatch
    let height ← okOr h.fixate .capsMismatch
    let framerate ← okOr r.fixate .capsMismatch
    return rawVideo format width height framerate i cl
  | audio format channels sampleRate layout =>
    if isPcm format && sampleRate == ANY_SAMPLE_RATE then throw .capsMismatch
    else if isPcm format && channels == ANY_CHANNELS then
      return audio format FIXATE_CHANNELS_PLACEHOLDER sampleRate layout
    else return audio format channels sampleRate layout
  | batch streams => return batch (← fixateStreams streams)
  | c => return c

/-- Fixate the streams of a batch, an error at the first that cannot be. -/
def fixateStreams : List Caps → Except G2gError (List Caps)
  | [] => return []
  | c :: cs => return (← fixate c) :: (← fixateStreams cs)

end

/-- Fixate with the ranges of the geometry moved toward the geometry of preferred caps. -/
def fixateToward (c preferred : Caps) : Except G2gError Caps :=
  match c, preferred.dims with
  | compressedVideo codec w h r cl al, some (pw, ph, pr) =>
    fixate (compressedVideo codec (w.nearestTo pw) (h.nearestTo ph) (r.nearestTo pr) cl al)
  | rawVideo format w h r i cl, some (pw, ph, pr) =>
    fixate (rawVideo format (w.nearestTo pw) (h.nearestTo ph) (r.nearestTo pr) i cl)
  | c, _ => fixate c

end Caps

/-- The preferred alternative that fixates, fixated. -/
def CapsSet.fixate (s : CapsSet) : Option Caps :=
  s.alternatives.findSome? fun c => c.fixate.toOption

end Glass2Glass
