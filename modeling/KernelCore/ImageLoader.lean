import KernelCore.ExecutableImage
import KernelCore.Platform

/-!
# Loading an image

Loading goes in three stages. `plan` checks every segment against the image and against the pages
that are mapped already, and changes nothing. Then every page that the segments touch is mapped to
a fresh frame, pages shared by segments once; if that fails, the pages mapped so far are taken out
again. At last each segment is cleared and its bytes copied in, in table order. So a load that fails
leaves the space as it was.
-/
namespace KernelCore

/-- What a successful load produced. -/
structure LoadedImage where
  entry : Nat
  segments : Nat
  pagesMapped : Nat
  deriving DecidableEq, Repr

namespace ExecutableImage

def spanned (segments : List Segment) (p : Page) : Bool := segments.any (·.spans p)

/-- The segments that the program headers describe, each added after those in `earlier`. A page that
is mapped already may not be touched by any of them. -/
def planSegments (image : ExecutableImage) (user : Bool) (mapped : Page → Bool) :
    (headers : List ProgramHeader) → (earlier : List Segment) → Outcome ImageError (List Segment)
  | [], earlier => .ok earlier
  | h :: headers, earlier =>
    match image.segment? user h with
    | .error e => .error e
    | .ok none => image.planSegments user mapped headers earlier
    | .ok (some s) =>
      match scanPages (fun p => !spanned earlier p && mapped p) s.pageCount s.firstPage with
      | .aborted => .aborted
      | .occupied => .error (.mapFailed .alreadyMapped)
      | .clear => image.planSegments user mapped headers (earlier ++ [s])

/-- The entry point and the segments to load, if nothing speaks against loading them. -/
def plan (image : ExecutableImage) (user : Bool) (mapped : Page → Bool) :
    Outcome ImageError (Nat × List Segment) :=
  match image.header with
  | .error e => .error e
  | .ok h =>
    if ¬ Canonical h.entry then .error .addressOverflow
    else if user ∧ userSpaceEnd ≤ h.entry then .error .notUserAddress
    else
      match image.planSegments user mapped (image.loadHeaders h) [] with
      | .ok segments => .ok (h.entry, segments)
      | .error e => .error e
      | .aborted => .aborted

/-- The pages that the segments touch, each where it is touched first. -/
def freshPages : (earlier segments : List Segment) → List Page
  | _, [] => []
  | earlier, s :: segments =>
    s.pages.filter (fun p => !spanned earlier p) ++ freshPages (earlier ++ [s]) segments

variable {π : Type} [Platform π]

/-- Clears a segment's memory and copies its bytes in. -/
def fillSegment (image : ExecutableImage) (s : Segment) (p : π) : π :=
  let p := (zeroRange s.start s.size p).2
  let p := if s.fileSize = 0 then p else (copyIn s.start (image.contents s) p).2
  note (.debug ("elf: segment " ++ hex s.start ++ "+" ++ hex s.size ++ " (" ++
    toString s.fileSize ++ " bytes from file)")) p

/-- The error of a load whose pages could not be mapped. -/
def mapError : Option MapError → ImageError
  | none => .outOfMemory
  | some e => .mapFailed e

/-- Loads an image into a space, which must be the active one. -/
def load (image : ExecutableImage) (space : AddressSpace) (user : Bool) (p : π) :
    Outcome ImageError LoadedImage × π :=
  match image.plan user (isMapped p space) with
  | .error e => (.error e, p)
  | .aborted => (.aborted, p)
  | .ok (entry, segments) =>
    let pages := freshPages [] segments
    match mapAllFresh space user (fun _ _ => false) pages [] p with
    | (.error e, p) => (.error (mapError e), p)
    | (.ok (), p) =>
      (.ok ⟨entry, segments.length, pages.length⟩,
        segments.foldl (fun p s => image.fillSegment s p) p)

end ExecutableImage
end KernelCore
