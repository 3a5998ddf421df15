import MyClaw.Session.Types

set_option autoImplicit false

/-!
# Media of a message

What the provider layer knows of a file that a message names (`providers/media.rs`): its modality, by
the MIME type, the extension or the first bytes, and the marker that stands for it in a text.

## Main definitions

* `MediaFiles` — the files of the machine.
* `modalityFromMime` — the modality of a file.
* `markerForFile` — the text that stands for a file.

## Main results

* `isBlank_markerForFile` — no marker is blank.

## Implementation notes

`resolve_path` and the file system under it are one reading function; a path is a Unix path.
-/

namespace MyClaw

/-- What a file is. -/
inductive FileModality
  | image
  | audio
  | video
  | other
  deriving DecidableEq

/-- The files that a rendering may read. -/
structure MediaFiles where
  /-- `std::fs::read(resolve_path(path))`: the bytes, or the text of the error. -/
  read : String → Except String (List UInt8)
  /-- The standard base64 encoding. -/
  encode : List UInt8 → String

/-- `Path::file_name`: the last component, unless it leads to the parent. -/
def pathFileName (path : List Char) : Option (List Char) :=
  match ((path.splitOn '/').filter fun part => part ≠ [] ∧ part ≠ ['.']).getLast? with
  | some name => if name = ['.', '.'] then none else some name
  | none => none

/-- `Path::extension`: what follows the last dot of the file name, unless that dot is its first
character. -/
def pathExtension (path : List Char) : Option (List Char) :=
  (pathFileName path).bind fun name =>
    match name.reverse.dropWhile (· ≠ '.') with
    | [] => none
    | _ :: before => if before = [] then none else some (name.reverse.takeWhile (· ≠ '.')).reverse

/-- The extension in lower case, empty if there is none. -/
def lowerExtension (path : String) : String :=
  String.ofList (((pathExtension path.toList).getD []).map Char.toLower)

/-- The modality of a file by its first bytes. -/
def sniffModalityFromBytes (bytes : List UInt8) : FileModality :=
  if bytes.length < 4 then .other
  else if [0xFF, 0xD8, 0xFF] <+: bytes then .image
  else if [0x89, 0x50, 0x4E, 0x47] <+: bytes then .image
  else if "GIF87a".toUTF8.toList <+: bytes ∨ "GIF89a".toUTF8.toList <+: bytes then .image
  else if "RIFF".toUTF8.toList <+: bytes ∧ 12 ≤ bytes.length ∧
      (bytes.drop 8).take 4 = "WEBP".toUTF8.toList then .image
  else if [0x42, 0x4D] <+: bytes then .image
  else if "ID3".toUTF8.toList <+: bytes ∨
      (2 ≤ bytes.length ∧ bytes[0]? = some 0xFF ∧ bytes[1]?.map (· &&& 0xE0) = some 0xE0) then .audio
  else if "OggS".toUTF8.toList <+: bytes then .audio
  else if "RIFF".toUTF8.toList <+: bytes ∧ 12 ≤ bytes.length ∧
      (bytes.drop 8).take 4 = "WAVE".toUTF8.toList then .audio
  else if "fLaC".toUTF8.toList <+: bytes then .audio
  else if 12 ≤ bytes.length ∧ (bytes.drop 4).take 4 = "ftyp".toUTF8.toList then .video
  else if [0x1A, 0x45, 0xDF, 0xA3] <+: bytes then .video
  else .other

/-- The modality of a file by the bytes it has, if it can be read. -/
def sniffModalityFromPath (files : MediaFiles) (path : String) : FileModality :=
  match files.read path with
  | .error _ => .other
  | .ok bytes => sniffModalityFromBytes bytes

/-- A MIME type without its parameters, in lower case. -/
def mimeEssence (mime : String) : List Char :=
  (trimChars ((mime.toList.splitOn ';').headD mime.toList)).map Char.toLower

/-- The modality by the extension of the file, else by its bytes. -/
def modalityFromPath (files : MediaFiles) (path : String) : FileModality :=
  let extension := lowerExtension path
  if extension ∈ ["jpg", "jpeg", "png", "gif", "webp", "bmp"] then .image
  else if extension ∈ ["ogg", "mp3", "wav", "flac", "m4a", "aac"] then .audio
  else if extension ∈ ["mp4", "webm", "mov", "mkv"] then .video
  else sniffModalityFromPath files path

/-- The modality of a file. -/
def modalityFromMime (files : MediaFiles) (mime : Option String) (path : String) : FileModality :=
  match mime with
  | some mime =>
    if "image/".toList <+: mimeEssence mime then .image
    else if "audio/".toList <+: mimeEssence mime then .audio
    else if "video/".toList <+: mimeEssence mime then .video
    else modalityFromPath files path
  | none => modalityFromPath files path

/-- `image_marker_path`. -/
def imageMarkerPath (path : String) : String := "[image: " ++ path ++ "]"

/-- `audio_marker_path`. -/
def audioMarkerPath (path : String) : String := "[audio: " ++ path ++ "]"

/-- `video_marker_path`. -/
def videoMarkerPath (path : String) : String := "[video: " ++ path ++ "]"

/-- `file_marker_path`. -/
def fileMarkerPath (path : String) : String := "[file: " ++ path ++ "]"

/-- The text that stands for a file. -/
def markerForFile (files : MediaFiles) (path : String) (mime : Option String) : String :=
  match modalityFromMime files mime path with
  | .image => imageMarkerPath path
  | .audio => audioMarkerPath path
  | .video => videoMarkerPath path
  | .other => fileMarkerPath path

/-- The MIME type of an image by its extension. -/
def inferImageMime (path : String) : Option String :=
  let extension := lowerExtension path
  if extension = "jpg" ∨ extension = "jpeg" then some "image/jpeg"
  else if extension = "png" then some "image/png"
  else if extension = "gif" then some "image/gif"
  else if extension = "webp" then some "image/webp"
  else none

/-! ## Markers -/

/-- A text with a character that is no white space is not blank. -/
lemma isBlank_eq_false_of_mem {text : String} {c : Char} (h : c ∈ text.toList)
    (hc : isWhiteSpace c = false) : isBlank text = false := by
  rw [isBlank, List.all_eq_false]
  exact ⟨c, h, by simp [hc]⟩

/-- **No marker is blank.** -/
theorem isBlank_markerForFile (files : MediaFiles) (path : String) (mime : Option String) :
    isBlank (markerForFile files path mime) = false := by
  refine isBlank_eq_false_of_mem (c := '[') ?_ (by decide)
  unfold markerForFile
  cases modalityFromMime files mime path with
  | image => simp [imageMarkerPath]
  | audio => simp [audioMarkerPath]
  | video => simp [videoMarkerPath]
  | other => simp [fileMarkerPath]

end MyClaw
