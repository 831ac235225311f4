import Alpine.Lib.Run
import Alpine.Lib.UMap
import Mathlib.Data.List.TakeWhile

/-!
# The media files of the bridge

`ContentStore` indexes the video files under a directory, by path and by id. A rescan forgets both
indexes and numbers the files anew, in the order in which the directory is read. The number is put
into a buffer of 16 bytes (`mediaId`), so that from ten digits on the last ones are lost
(`nodup_numbered_iff`).
-/

namespace Alpine

open Lib

abbrev MediaPath := List Char
abbrev MediaId := List Char

structure MediaItem where
  id : MediaId
  path : MediaPath
  fileName : List Char
  title : List Char
  mimeType : List Char
  fileSize : UInt64
  deriving DecidableEq, Repr

/-- A directory as a scan reads it, entry by entry, with what `stat` says. -/
inductive Listing where
  | done
  | file (name : List Char) (size : UInt64) (rest : Listing)
  /-- A directory; one that cannot be opened has no entries. -/
  | dir (name : List Char) (inner rest : Listing)
  /-- `stat` fails, or says neither. -/
  | other (name : List Char) (rest : Listing)

namespace Listing

def names : Listing → List (List Char)
  | done => []
  | file name _ rest | dir name _ rest | other name rest => name :: rest.names

/-- A directory has each name once, and no name has a slash in it. -/
def Proper : Listing → Prop
  | done => True
  | file name _ rest | other name rest => '/' ∉ name ∧ name ∉ rest.names ∧ rest.Proper
  | dir name inner rest => '/' ∉ name ∧ name ∉ rest.names ∧ inner.Proper ∧ rest.Proper

end Listing

structure Directory where
  listing : Listing
  proper : listing.Proper

/-- A video file, as a scan or `indexFile` sees it. -/
structure VideoFile where
  path : MediaPath
  fileName : List Char
  title : List Char
  mimeType : List Char
  fileSize : UInt64
  deriving DecidableEq, Repr

def VideoFile.item (video : VideoFile) (id : MediaId) : MediaItem :=
  ⟨id, video.path, video.fileName, video.title, video.mimeType, video.fileSize⟩

structure ContentStore where
  mediaDirectory : MediaPath
  items : UMap MediaPath MediaItem
  idToPath : UMap MediaId MediaPath
  nextId : UInt64
  systemUpdateId : UInt64

namespace ContentStore

def mimeTypes : List (List Char × List Char) :=
  [("mp4".toList, "video/mp4".toList), ("m4v".toList, "video/mp4".toList),
    ("mkv".toList, "video/x-matroska".toList), ("avi".toList, "video/x-msvideo".toList),
    ("mov".toList, "video/quicktime".toList), ("wmv".toList, "video/x-ms-wmv".toList),
    ("webm".toList, "video/webm".toList), ("ts".toList, "video/mp2t".toList),
    ("mpg".toList, "video/mpeg".toList), ("mpeg".toList, "video/mpeg".toList),
    ("flv".toList, "video/x-flv".toList)]

/-- The text before and behind the last `c`. -/
def splitLast (c : Char) (s : List Char) : Option (List Char × List Char) :=
  if c ∈ s then
    some ((s.reverse.dropWhile (· ≠ c)).tail.reverse, (s.reverse.takeWhile (· ≠ c)).reverse)
  else none

/-- A file is a video if the table has its extension. -/
def videoFile (fullPath name : List Char) (size : UInt64) : Option VideoFile := do
  let (title, ext) ← splitLast '.' name
  let mimeType ← mimeTypes.lookup ext
  some ⟨fullPath, name, title, mimeType, size⟩

/-- `snprintf` of `media-%03lu` into 16 bytes, of which one is for the terminator. -/
def mediaId (number : UInt64) : MediaId :=
  ("media-".toList ++ (Nat.toDigits 10 number.toNat).leftpad 3 '0').take 15

def addItem (store : ContentStore) (video : VideoFile) : ContentStore :=
  let id := mediaId store.nextId
  { store with
    nextId := store.nextId + 1
    idToPath := store.idToPath.assign id video.path
    items := store.items.emplace video.path (video.item id) }

def scanEntry (store : ContentStore) (fullPath name : List Char) (size : UInt64) : ContentStore :=
  match videoFile fullPath name size with
  | some video => store.addItem video
  | none => store

def isDots (name : List Char) : Bool := name = ['.'] || name = ['.', '.']

def scanDirectory (dir : MediaPath) (store : ContentStore) : Listing → ContentStore
  | .done => store
  | .file name size rest =>
    scanDirectory dir
      (if isDots name then store else store.scanEntry (dir ++ '/' :: name) name size) rest
  | .dir name inner rest =>
    scanDirectory dir
      (if isDots name then store else scanDirectory (dir ++ '/' :: name) store inner) rest
  | .other _ rest => scanDirectory dir store rest

def new : ContentStore := ⟨[], ∅, ∅, 1, 1⟩

def rescan (store : ContentStore) (directory : Directory) : ContentStore :=
  let scanned := scanDirectory store.mediaDirectory
    { store with items := ∅, idToPath := ∅, nextId := 1 } directory.listing
  { scanned with systemUpdateId := scanned.systemUpdateId + 1 }

/-- `none` if there is no such directory; its path is kept all the same. -/
def initializeContent (store : ContentStore) (mediaDirectory : MediaPath)
    (directory : Option Directory) : ContentStore :=
  match directory with
  | some directory => { store with mediaDirectory := mediaDirectory }.rescan directory
  | none => { store with mediaDirectory := mediaDirectory }

def getItem (store : ContentStore) (id : MediaId) : Option MediaItem :=
  (store.idToPath.find id).bind store.items.find

def getAllItems (store : ContentStore) : List MediaItem := store.items.entries.map Sigma.snd

/-- The part of a path behind its last slash. -/
def baseName (fullPath : MediaPath) : List Char :=
  match splitLast '/' fullPath with
  | some (_, name) => name
  | none => fullPath

/-- The video that `indexFile` sees; `size` is `none` if there is no regular file. -/
def indexedVideo (fullPath : MediaPath) (size : Option UInt64) : Option VideoFile :=
  size.bind (videoFile fullPath (baseName fullPath))

def indexFile (store : ContentStore) (fullPath : MediaPath) (size : Option UInt64) :
    ContentStore :=
  match indexedVideo fullPath size with
  | none => store
  | some video =>
    match store.items.find fullPath with
    | some existing =>
      { store with
        items := store.items.assign fullPath { existing with fileSize := video.fileSize }
        systemUpdateId := store.systemUpdateId + 1 }
    | none =>
      let store := store.addItem video
      { store with systemUpdateId := store.systemUpdateId + 1 }

def removeFile (store : ContentStore) (fullPath : MediaPath) : ContentStore :=
  match store.items.find fullPath with
  | some item =>
    { store with
      idToPath := store.idToPath.erase item.id
      items := store.items.erase fullPath
      systemUpdateId := store.systemUpdateId + 1 }
  | none => store

/-! ## The files of a scan -/

/-- The video files below a directory, in the order in which they are read. -/
def videos (dir : MediaPath) : Listing → List VideoFile
  | .done => []
  | .file name size rest =>
    (if isDots name then [] else (videoFile (dir ++ '/' :: name) name size).toList) ++
      videos dir rest
  | .dir name inner rest =>
    (if isDots name then [] else videos (dir ++ '/' :: name) inner) ++ videos dir rest
  | .other _ rest => videos dir rest

theorem scanEntry_eq (store : ContentStore) (fullPath name : List Char) (size : UInt64) :
    store.scanEntry fullPath name size =
      (videoFile fullPath name size).toList.foldl addItem store := by
  unfold scanEntry
  cases videoFile fullPath name size <;> rfl

/-- A scan adds the files one after the other. -/
theorem scanDirectory_eq (dir : MediaPath) (store : ContentStore) (listing : Listing) :
    scanDirectory dir store listing = (videos dir listing).foldl addItem store := by
  induction listing generalizing dir store with
  | done => rfl
  | file name size rest ih =>
    rw [scanDirectory, videos, List.foldl_append, ih]
    split
    · rfl
    · rw [scanEntry_eq]
  | dir name inner rest ihInner ih =>
    rw [scanDirectory, videos, List.foldl_append, ih]
    split
    · rfl
    · rw [ihInner]
  | other name rest ih => rw [scanDirectory, videos, ih]

theorem videoFile_path {fullPath name : List Char} {size : UInt64} {video : VideoFile}
    (h : videoFile fullPath name size = some video) : video.path = fullPath := by
  unfold videoFile at h
  cases hsplit : splitLast '.' name with
  | none => rw [hsplit] at h; cases h
  | some split =>
    obtain ⟨title, ext⟩ := split
    rw [hsplit] at h
    cases hmime : mimeTypes.lookup ext with
    | none => simp [hmime] at h
    | some mimeType =>
      simp only [Option.bind_eq_bind, Option.bind_some, hmime, Option.some.injEq] at h
      rw [← h]

/-- The entry of `dir` that a path goes through. -/
def entryOf (dir path : MediaPath) : List Char :=
  (path.drop (dir.length + 1)).takeWhile (· ≠ '/')

theorem entryOf_append (dir : MediaPath) {name : List Char} (hname : '/' ∉ name)
    (tail : List Char) :
    entryOf dir (dir ++ '/' :: name) = name ∧
      entryOf dir ((dir ++ '/' :: name) ++ '/' :: tail) = name := by
  have hall : ∀ c ∈ name, decide (c ≠ '/') = true := by
    intro c hc
    rw [decide_eq_true_eq]
    rintro rfl
    exact hname hc
  have hdrop : ∀ rest, (dir ++ '/' :: rest).drop (dir.length + 1) = rest := by
    intro rest
    rw [← List.drop_drop, List.drop_left]
    rfl
  unfold entryOf
  constructor
  · rw [hdrop, List.takeWhile_eq_self_iff]
    exact hall
  · rw [List.append_assoc, List.cons_append, hdrop, List.takeWhile_append_of_pos hall,
      List.takeWhile_cons_of_neg (by decide), List.append_nil]

/-- Where a file of a scan is. -/
theorem mem_videos {dir : MediaPath} {listing : Listing} (h : listing.Proper) {video : VideoFile}
    (hvideo : video ∈ videos dir listing) :
    entryOf dir video.path ∈ listing.names ∧ ∃ tail, video.path = dir ++ '/' :: tail := by
  induction listing generalizing dir with
  | done => cases hvideo
  | file name size rest ih =>
    obtain ⟨hslash, -, hrest⟩ := h
    rcases List.mem_append.mp hvideo with hvideo | hvideo
    · split at hvideo
      · cases hvideo
      · have hpath := videoFile_path (Option.mem_toList.mp hvideo)
        rw [hpath, (entryOf_append _ hslash []).1]
        exact ⟨List.mem_cons_self, name, rfl⟩
    · obtain ⟨hentry, htail⟩ := ih hrest hvideo
      exact ⟨List.mem_cons_of_mem _ hentry, htail⟩
  | dir name inner rest ihInner ih =>
    obtain ⟨hslash, -, hinner, hrest⟩ := h
    rcases List.mem_append.mp hvideo with hvideo | hvideo
    · split at hvideo
      · cases hvideo
      · obtain ⟨-, tail, htail⟩ := ihInner hinner hvideo
        rw [htail, (entryOf_append _ hslash tail).2]
        refine ⟨List.mem_cons_self, name ++ '/' :: tail, ?_⟩
        rw [List.append_assoc, List.cons_append]
    · obtain ⟨hentry, htail⟩ := ih hrest hvideo
      exact ⟨List.mem_cons_of_mem _ hentry, htail⟩
  | other name rest ih =>
    obtain ⟨-, -, hrest⟩ := h
    obtain ⟨hentry, htail⟩ := ih hrest hvideo
    exact ⟨List.mem_cons_of_mem _ hentry, htail⟩

/-- A scan meets no path twice. -/
theorem nodup_videos (dir : MediaPath) {listing : Listing} (h : listing.Proper) :
    ((videos dir listing).map VideoFile.path).Nodup := by
  induction listing generalizing dir with
  | done => exact List.nodup_nil
  | file name size rest ih =>
    obtain ⟨hslash, hnew, hrest⟩ := h
    rw [videos]
    split
    · exact ih dir hrest
    · cases hvideo : videoFile (dir ++ '/' :: name) name size with
      | none => exact ih dir hrest
      | some video =>
        refine List.nodup_cons.mpr ⟨fun hmem => ?_, ih dir hrest⟩
        obtain ⟨other, hother, hpath⟩ := List.mem_map.mp hmem
        refine hnew ?_
        rw [← (entryOf_append dir hslash []).1, ← videoFile_path hvideo, ← hpath]
        exact (mem_videos hrest hother).1
  | dir name inner rest ihInner ih =>
    obtain ⟨hslash, hnew, hinner, hrest⟩ := h
    rw [videos]
    split
    · exact ih dir hrest
    · rw [List.map_append, List.nodup_append]
      refine ⟨ihInner _ hinner, ih dir hrest, fun path hpath path' hpath' heq => hnew ?_⟩
      subst heq
      obtain ⟨video, hvideo, rfl⟩ := List.mem_map.mp hpath
      obtain ⟨other, hother, hsame⟩ := List.mem_map.mp hpath'
      obtain ⟨-, tail, htail⟩ := mem_videos hinner hvideo
      rw [← (entryOf_append dir hslash tail).2, ← htail, ← hsame]
      exact (mem_videos hrest hother).1
  | other name rest ih => exact ih dir h.2.2

/-! ## Ids -/

theorem mediaId_inj {m n : UInt64} (hm : m.toNat < 10 ^ 9) (hn : n.toNat < 10 ^ 9)
    (h : mediaId m = mediaId n) : m = n := by
  have hwhole : ∀ k : UInt64, k.toNat < 10 ^ 9 →
      mediaId k = "media-".toList ++ (Nat.toDigits 10 k.toNat).leftpad 3 '0' := by
    intro k hk
    have hdigits := (Nat.length_toDigits_le_iff (b := 10) (n := k.toNat) (k := 9) (by decide)
      (by decide)).mpr hk
    refine List.take_of_length_le ?_
    rw [List.length_append, List.length_leftpad]
    show 6 + _ ≤ 15
    omega
  have hread : ∀ k : UInt64,
      Nat.ofDigitChars 10 ((Nat.toDigits 10 k.toNat).leftpad 3 '0') 0 = k.toNat := by
    intro k
    rw [List.leftpad, Nat.ofDigitChars_append, Nat.ofDigitChars_replicate_zero, Nat.mul_zero,
      Nat.ofDigitChars_ten_toDigits]
  rw [hwhole m hm, hwhole n hn] at h
  have hpadded := List.append_cancel_left h
  apply UInt64.toNat_inj.mp
  rw [← hread m, hpadded, hread n]

/-- The ids that files get, from a number on. -/
def numbered : UInt64 → List VideoFile → List (MediaId × VideoFile)
  | _, [] => []
  | number, video :: rest => (mediaId number, video) :: numbered (number + 1) rest

theorem map_fst_numbered (number : UInt64) (files : List VideoFile) :
    (numbered number files).map Prod.fst =
      (List.range files.length).map fun i => mediaId (number + UInt64.ofNat i) := by
  induction files generalizing number with
  | nil => rfl
  | cons video rest ih =>
    rw [numbered, List.map_cons, ih, List.length_cons, List.range_succ_eq_map, List.map_cons,
      List.map_map]
    congr 1
    · show _ = mediaId (number + 0)
      rw [UInt64.add_zero]
    · refine List.map_congr_left fun i _ => ?_
      show _ = mediaId (number + UInt64.ofNat (i + 1))
      rw [UInt64.ofNat_add, UInt64.add_comm (UInt64.ofNat i), ← UInt64.add_assoc]
      rfl

/-- The ids of a scan are all different exactly if there are fewer than a milliard files. -/
theorem nodup_numbered_iff (files : List VideoFile) :
    ((numbered 1 files).map Prod.fst).Nodup ↔ files.length < 10 ^ 9 := by
  have hnumber : ∀ i : Nat, i < 10 ^ 9 - 1 → (1 + UInt64.ofNat i).toNat = 1 + i := by
    intro i hi
    rw [UInt64.toNat_add, UInt64.toNat_ofNat', UInt64.toNat_one]
    omega
  rw [map_fst_numbered]
  constructor
  · intro hnodup
    by_contra hlong
    have hinj := List.inj_on_of_nodup_map hnodup
    have hsame : (99999999 : Nat) = 999999999 := hinj (List.mem_range.mpr (by omega))
      (List.mem_range.mpr (by omega)) (by decide +kernel)
    cases hsame
  · intro hshort
    refine (List.nodup_map_iff_inj_on List.nodup_range).mpr fun i hi j hj heq => ?_
    rw [List.mem_range] at hi hj
    have hi' := hnumber i (by omega)
    have hj' := hnumber j (by omega)
    have hnumbers := congrArg UInt64.toNat
      (mediaId_inj (by rw [hi']; omega) (by rw [hj']; omega) heq)
    omega

end ContentStore

end Alpine
