import Alpine.RestBridge.ContentStore

/-!
# Ids of media files over time

A run of the store is a list of scans, of single files indexed and removed, and of listings. Clients
keep the ids of a listing; `StepStable` says that these go on to mean the same files. Since a scan
numbers the files anew, they do so exactly if every scan comes to the same numbers again
(`along_stable_iff`).
-/

namespace Alpine

open Lib

/-- `size` is what `stat` says of a file; `none` if there is no regular file. -/
inductive ContentCall where
  | initializeContent (mediaDirectory : MediaPath) (directory : Option Directory)
  | rescan (directory : Directory)
  | indexFile (fullPath : MediaPath) (size : Option UInt64)
  | removeFile (fullPath : MediaPath)
  | listItems

inductive ContentEvent where
  | scanned (paths : List MediaPath)
  | indexed (path : MediaPath)
  | removed (path : MediaPath)
  /-- A client is told the id of a file. -/
  | given (id : MediaId) (path : MediaPath)
  deriving DecidableEq

namespace ContentStore

def scannedPaths (dir : MediaPath) (directory : Directory) : ContentEvent :=
  .scanned ((videos dir directory.listing).map VideoFile.path)

def step (store : ContentStore) : ContentCall → ContentStore × List ContentEvent
  | .initializeContent dir directory =>
    (store.initializeContent dir directory, (directory.map (scannedPaths dir)).toList)
  | .rescan directory => (store.rescan directory, [scannedPaths store.mediaDirectory directory])
  | .indexFile fullPath size =>
    (store.indexFile fullPath size, ((indexedVideo fullPath size).map fun _ =>
      .indexed fullPath).toList)
  | .removeFile fullPath => (store.removeFile fullPath, [.removed fullPath])
  | .listItems => (store, store.getAllItems.map fun item => .given item.id item.path)

def machine : Machine ContentStore ContentCall ContentEvent := ⟨step⟩

/-! ## What ids mean -/

/-- The files that were found last and not removed since. -/
def found (history : List ContentEvent) : List MediaPath :=
  history.foldl (fun paths event =>
    match event with
    | .scanned paths' => paths'
    | .indexed path => path :: paths
    | .removed path => paths.filter (· ≠ path)
    | .given _ _ => paths) []

/-- The store hands out a file under an id. -/
def Denotes (store : ContentStore) (id : MediaId) (path : MediaPath) : Prop :=
  ∃ item, store.getItem id = some item ∧ item.path = path

/-- What clients rely on: an id that was given keeps its file while there is the file, and never
gets another; files have different ids; both indexes agree; what is handed out was found last; and
the update id tells of a change. -/
structure StepStable (history : List ContentEvent) (store : ContentStore) (call : ContentCall) :
    Prop where
  same : ∀ id path, .given id path ∈ history → store.Denotes id path →
    ((store.step call).1.items.find path).isSome → (store.step call).1.Denotes id path
  never : ∀ id path, .given id path ∈ history ++ (store.step call).2 →
    ∀ path', (store.step call).1.Denotes id path' → path' = path
  distinct : ∀ path path' item item', (store.step call).1.items.find path = some item →
    (store.step call).1.items.find path' = some item' → item.id = item'.id → path = path'
  linked : ∀ id path, (store.step call).1.idToPath.find id = some path ↔
    ∃ item, (store.step call).1.items.find path = some item ∧ item.id = id
  present : ∀ id item, (store.step call).1.getItem id = some item →
    item.path ∈ found (history ++ (store.step call).2)
  updated : (store.step call).1.items.find ≠ store.items.find →
    (store.step call).1.systemUpdateId ≠ store.systemUpdateId

/-- A scan comes to fewer than a milliard files, and numbers those that were given as before, and no
other in their place. -/
def ScanFits (history : List ContentEvent) (store : ContentStore) (dir : MediaPath)
    (directory : Directory) : Prop :=
  (videos dir directory.listing).length < 10 ^ 9 ∧
    ∀ id path, .given id path ∈ history → ∀ entry ∈ numbered 1 (videos dir directory.listing),
      (entry.1 = id → entry.2.path = path) ∧
      (entry.2.path = path → store.Denotes id path → entry.1 = id)

/-- The next id is not in use, and was given for no other file. -/
def NextFits (history : List ContentEvent) (store : ContentStore) (fullPath : MediaPath) : Prop :=
  (∀ path item, store.items.find path = some item → item.id ≠ mediaId store.nextId) ∧
    ∀ path, .given (mediaId store.nextId) path ∈ history → fullPath = path

def StepFits (history : List ContentEvent) (store : ContentStore) : ContentCall → Prop
  | .initializeContent dir directory => ∀ d, directory = some d → ScanFits history store dir d
  | .rescan directory => ScanFits history store store.mediaDirectory directory
  | .indexFile fullPath size => (indexedVideo fullPath size).isSome →
      store.items.find fullPath = none → NextFits history store fullPath
  | _ => True

/-- What every run keeps that meets the condition. -/
structure Kept (history : List ContentEvent) (store : ContentStore) : Prop where
  linked : ∀ id path, store.idToPath.find id = some path ↔
    ∃ item, store.items.find path = some item ∧ item.id = id
  own : ∀ path item, store.items.find path = some item → item.path = path
  present : ∀ path item, store.items.find path = some item → path ∈ found history
  never : ∀ id path, .given id path ∈ history → ∀ path', store.Denotes id path' → path' = path

/-! ## The indexes after a scan -/

variable {store : ContentStore} {history : List ContentEvent}

theorem find_addItem {video : VideoFile} (h : store.items.find video.path = none)
    (path : MediaPath) : (store.addItem video).items.find path =
      if path = video.path then some (video.item (mediaId store.nextId))
      else store.items.find path := by
  show (store.items.emplace video.path _).find path = _
  rw [UMap.find_emplace, h]
  rfl

theorem find_idToPath_addItem (store : ContentStore) (video : VideoFile) (id : MediaId) :
    (store.addItem video).idToPath.find id =
      if id = mediaId store.nextId then some video.path else store.idToPath.find id :=
  UMap.find_assign _ _ _ _

theorem items_foldl {files : List VideoFile} (hnodup : (files.map VideoFile.path).Nodup)
    (hfresh : ∀ video ∈ files, store.items.find video.path = none) (path : MediaPath)
    (item : MediaItem) : (files.foldl addItem store).items.find path = some item ↔
      store.items.find path = some item ∨
        ∃ entry ∈ numbered store.nextId files, entry.2.path = path ∧
          entry.2.item entry.1 = item := by
  induction files generalizing store with
  | nil => simp [numbered]
  | cons video rest ih =>
    rw [List.map_cons, List.nodup_cons] at hnodup
    have hnone := hfresh video List.mem_cons_self
    have hne : ∀ other ∈ rest, other.path ≠ video.path := fun other hother heq =>
      hnodup.1 (heq ▸ List.mem_map_of_mem hother)
    have hrest : ∀ other ∈ rest, (store.addItem video).items.find other.path = none := by
      intro other hother
      rw [find_addItem hnone, if_neg (hne other hother)]
      exact hfresh other (List.mem_cons_of_mem _ hother)
    rw [List.foldl_cons, ih hnodup.2 hrest, find_addItem hnone]
    simp only [numbered, List.exists_mem_cons_iff]
    show _ ∨ (∃ entry ∈ numbered (store.nextId + 1) rest, _) ↔ _
    by_cases hpath : path = video.path
    · subst hpath
      rw [if_pos rfl, hnone]
      simp
    · rw [if_neg hpath]
      simp [Ne.symm hpath]

theorem idToPath_foldl {files : List VideoFile}
    (hnodup : ((numbered store.nextId files).map Prod.fst).Nodup)
    (hfresh : ∀ entry ∈ numbered store.nextId files, store.idToPath.find entry.1 = none)
    (id : MediaId) (path : MediaPath) :
    (files.foldl addItem store).idToPath.find id = some path ↔
      store.idToPath.find id = some path ∨
        ∃ entry ∈ numbered store.nextId files, entry.1 = id ∧ entry.2.path = path := by
  induction files generalizing store with
  | nil => simp [numbered]
  | cons video rest ih =>
    rw [numbered, List.map_cons, List.nodup_cons] at hnodup
    have hnone := hfresh (mediaId store.nextId, video) List.mem_cons_self
    have hrest : ∀ entry ∈ numbered (store.nextId + 1) rest,
        (store.addItem video).idToPath.find entry.1 = none := by
      intro entry hentry
      rw [find_idToPath_addItem, if_neg]
      · exact hfresh entry (List.mem_cons_of_mem _ hentry)
      · intro heq
        exact hnodup.1 (List.mem_map.mpr ⟨entry, hentry, heq⟩)
    rw [List.foldl_cons, ih hnodup.2 hrest, find_idToPath_addItem]
    simp only [numbered, List.exists_mem_cons_iff]
    show _ ∨ (∃ entry ∈ numbered (store.nextId + 1) rest, _) ↔ _
    by_cases hid : id = mediaId store.nextId
    · subst hid
      rw [if_pos rfl, hnone]
      simp
    · rw [if_neg hid]
      simp [Ne.symm hid]

theorem foldl_addItem_frame (files : List VideoFile) (store : ContentStore) :
    (files.foldl addItem store).systemUpdateId = store.systemUpdateId := by
  induction files generalizing store with
  | nil => rfl
  | cons video rest ih => rw [List.foldl_cons, ih]; rfl

def rescanOf (store : ContentStore) (dir : MediaPath) (directory : Directory) : ContentStore :=
  { store with mediaDirectory := dir }.rescan directory

theorem rescan_items (store : ContentStore) (dir : MediaPath) (directory : Directory)
    (path : MediaPath) (item : MediaItem) :
    (store.rescanOf dir directory).items.find path = some item ↔
      ∃ entry ∈ numbered 1 (videos dir directory.listing), entry.2.path = path ∧
        entry.2.item entry.1 = item := by
  show (scanDirectory dir ⟨dir, ∅, ∅, 1, store.systemUpdateId⟩ directory.listing).items.find path =
    _ ↔ _
  rw [scanDirectory_eq, items_foldl (nodup_videos dir directory.proper) fun _ _ => rfl]
  simp

theorem rescan_idToPath (store : ContentStore) {dir : MediaPath} {directory : Directory}
    (hnodup : ((numbered 1 (videos dir directory.listing)).map Prod.fst).Nodup) (id : MediaId)
    (path : MediaPath) : (store.rescanOf dir directory).idToPath.find id = some path ↔
      ∃ entry ∈ numbered 1 (videos dir directory.listing), entry.1 = id ∧
        entry.2.path = path := by
  show (scanDirectory dir ⟨dir, ∅, ∅, 1, store.systemUpdateId⟩ directory.listing).idToPath.find id =
    _ ↔ _
  rw [scanDirectory_eq, idToPath_foldl hnodup fun _ _ => rfl]
  simp

theorem add_one_ne (number : UInt64) : number + 1 ≠ number := by
  intro h
  have := congrArg UInt64.toNat h
  rw [UInt64.toNat_add, UInt64.toNat_one] at this
  have := number.toNat_lt
  omega

theorem rescan_systemUpdateId (store : ContentStore) (dir : MediaPath) (directory : Directory) :
    (store.rescanOf dir directory).systemUpdateId ≠ store.systemUpdateId := by
  show (scanDirectory dir ⟨dir, ∅, ∅, 1, store.systemUpdateId⟩ directory.listing).systemUpdateId +
    1 ≠ _
  rw [scanDirectory_eq, foldl_addItem_frame]
  exact add_one_ne _

theorem map_path_numbered (number : UInt64) (files : List VideoFile) :
    (numbered number files).map (fun entry => entry.2.path) = files.map VideoFile.path := by
  induction files generalizing number with
  | nil => rfl
  | cons video rest ih => rw [numbered, List.map_cons, ih, List.map_cons]

/-- Two files of a scan with one path are the same. -/
theorem numbered_inj {dir : MediaPath} {directory : Directory} {entry entry' : MediaId × VideoFile}
    (hentry : entry ∈ numbered 1 (videos dir directory.listing))
    (hentry' : entry' ∈ numbered 1 (videos dir directory.listing))
    (h : entry.2.path = entry'.2.path) : entry = entry' := by
  have hnodup := nodup_videos dir directory.proper
  rw [← map_path_numbered 1] at hnodup
  exact List.inj_on_of_nodup_map hnodup hentry hentry' h

/-! ## The invariant -/

theorem Kept.denotes_iff (h : Kept history store) {id : MediaId} {path : MediaPath} :
    store.Denotes id path ↔ store.idToPath.find id = some path := by
  unfold Denotes getItem
  constructor
  · rintro ⟨item, hget, rfl⟩
    obtain ⟨path, hid, hitem⟩ := Option.bind_eq_some_iff.mp hget
    rw [hid, h.own path item hitem]
  · intro hid
    obtain ⟨item, hitem, -⟩ := (h.linked id path).mp hid
    exact ⟨item, by rw [hid, Option.bind_some, hitem], h.own path item hitem⟩

theorem Kept.distinct (h : Kept history store) {path path' : MediaPath} {item item' : MediaItem}
    (hitem : store.items.find path = some item) (hitem' : store.items.find path' = some item')
    (hid : item.id = item'.id) : path = path' := by
  have hpath := (h.linked item.id path).mpr ⟨item, hitem, rfl⟩
  have hpath' := (h.linked item.id path').mpr ⟨item', hitem', hid.symm⟩
  exact Option.some.inj (hpath.symm.trans hpath')

theorem found_append (history events : List ContentEvent) (event : ContentEvent)
    (h : events = [event]) : found (history ++ events) =
      match event with
      | .scanned paths => paths
      | .indexed path => path :: found history
      | .removed path => (found history).filter (· ≠ path)
      | .given _ _ => found history := by
  subst h
  unfold found
  rw [List.foldl_append]
  cases event <;> rfl

/-- The part of `StepStable` that the invariant gives. -/
theorem Kept.stable {call : ContentCall}
    (h : Kept (history ++ (store.step call).2) (store.step call).1)
    (hsame : ∀ id path, .given id path ∈ history → store.Denotes id path →
      ((store.step call).1.items.find path).isSome → (store.step call).1.Denotes id path)
    (hupdated : (store.step call).1.items.find ≠ store.items.find →
      (store.step call).1.systemUpdateId ≠ store.systemUpdateId) :
    StepStable history store call where
  same := hsame
  never := h.never
  distinct path path' item item' := h.distinct
  linked := h.linked
  present id item hget := by
    obtain ⟨path, -, hitem⟩ := Option.bind_eq_some_iff.mp hget
    rw [h.own path item hitem]
    exact h.present path item hitem
  updated := hupdated

/-! ## Scans -/

variable {dir : MediaPath} {directory : Directory}

theorem ScanFits.kept (h : ScanFits history store dir directory) :
    Kept (history ++ [scannedPaths dir directory]) (store.rescanOf dir directory) := by
  have hnodup := (nodup_numbered_iff _).mpr h.1
  refine ⟨fun id path => ?_, fun path item hitem => ?_, fun path item hitem => ?_,
    fun id path hgiven path' hdenotes => ?_⟩
  · rw [rescan_idToPath store hnodup]
    simp only [rescan_items]
    constructor
    · rintro ⟨entry, hentry, hid, hpath⟩
      exact ⟨_, ⟨entry, hentry, hpath, rfl⟩, hid⟩
    · rintro ⟨_, ⟨entry, hentry, hpath, rfl⟩, hid⟩
      exact ⟨entry, hentry, hid, hpath⟩
  · obtain ⟨entry, -, hpath, rfl⟩ := (rescan_items ..).mp hitem
    exact hpath
  · obtain ⟨entry, hentry, rfl, -⟩ := (rescan_items ..).mp hitem
    rw [found_append history _ _ rfl]
    show _ ∈ (videos dir directory.listing).map VideoFile.path
    rw [← map_path_numbered 1]
    exact List.mem_map_of_mem (f := fun entry : MediaId × VideoFile => entry.2.path) hentry
  · have hgiven' : ContentEvent.given id path ∈ history := by
      rcases List.mem_append.mp hgiven with hgiven | hgiven
      · exact hgiven
      · cases List.mem_singleton.mp hgiven
    obtain ⟨item, hget, rfl⟩ := hdenotes
    obtain ⟨path', hid, hitem⟩ := Option.bind_eq_some_iff.mp hget
    obtain ⟨entry, hentry, hentryId, rfl⟩ := (rescan_idToPath store hnodup _ _).mp hid
    obtain ⟨other, hother, hsame, rfl⟩ := (rescan_items ..).mp hitem
    rw [← (h.2 id path hgiven' entry hentry).1 hentryId]
    exact hsame

/-- A scan keeps the ids that were given exactly if it fits. -/
theorem scan_iff :
    ((∀ id path, .given id path ∈ history → store.Denotes id path →
        ((store.rescanOf dir directory).items.find path).isSome →
        (store.rescanOf dir directory).Denotes id path) ∧
      (∀ id path, .given id path ∈ history →
        ∀ path', (store.rescanOf dir directory).Denotes id path' → path' = path) ∧
      ∀ path path' item item', (store.rescanOf dir directory).items.find path = some item →
        (store.rescanOf dir directory).items.find path' = some item' → item.id = item'.id →
        path = path') ↔
      ScanFits history store dir directory := by
  constructor
  · rintro ⟨hsame, hnever, hdistinct⟩
    have hnodup : ((numbered 1 (videos dir directory.listing)).map Prod.fst).Nodup := by
      refine List.Nodup.map_on (fun entry hentry entry' hentry' hid => ?_) ?_
      · exact numbered_inj hentry hentry' (hdistinct _ _ _ _
          ((rescan_items ..).mpr ⟨entry, hentry, rfl, rfl⟩)
          ((rescan_items ..).mpr ⟨entry', hentry', rfl, rfl⟩) hid)
      · refine List.Nodup.of_map (fun entry : MediaId × VideoFile => entry.2.path) ?_
        rw [map_path_numbered]
        exact nodup_videos dir directory.proper
    refine ⟨(nodup_numbered_iff _).mp hnodup, fun id path hgiven entry hentry => ⟨?_, ?_⟩⟩
    · rintro rfl
      refine hnever _ path hgiven _ ⟨entry.2.item entry.1, ?_, rfl⟩
      rw [getItem, (rescan_idToPath store hnodup _ _).mpr ⟨entry, hentry, rfl, rfl⟩]
      exact (rescan_items ..).mpr ⟨entry, hentry, rfl, rfl⟩
    · rintro rfl hdenotes
      obtain ⟨item, hget, hpath⟩ := hsame id _ hgiven hdenotes (Option.isSome_iff_exists.mpr
        ⟨_, (rescan_items ..).mpr ⟨entry, hentry, rfl, rfl⟩⟩)
      obtain ⟨path', hid, hitem⟩ := Option.bind_eq_some_iff.mp hget
      obtain ⟨other, hother, rfl, hpath'⟩ := (rescan_idToPath store hnodup _ _).mp hid
      obtain ⟨third, hthird, hpath'', rfl⟩ := (rescan_items ..).mp hitem
      rw [numbered_inj hother hentry (hpath'.trans (hpath''.symm.trans hpath))]
  · intro hfits
    have hkept := hfits.kept
    have hnodup := (nodup_numbered_iff _).mpr hfits.1
    refine ⟨fun id path hgiven hdenotes hsome => ?_, fun id path hgiven =>
      hkept.never id path (List.mem_append_left _ hgiven), fun _ _ _ _ => hkept.distinct⟩
    obtain ⟨item, hitem⟩ := Option.isSome_iff_exists.mp hsome
    obtain ⟨entry, hentry, hpath, -⟩ := (rescan_items ..).mp hitem
    rw [hkept.denotes_iff, rescan_idToPath store hnodup]
    exact ⟨entry, hentry, (hfits.2 id path hgiven entry hentry).2 hpath hdenotes, hpath⟩

/-! ## Single files -/

variable {fullPath : MediaPath} {size : Option UInt64}

theorem indexedVideo_path {video : VideoFile} (h : indexedVideo fullPath size = some video) :
    video.path = fullPath := by
  obtain ⟨n, -, hvideo⟩ := Option.bind_eq_some_iff.mp h
  exact videoFile_path hvideo

theorem indexFile_new {video : VideoFile} (h : indexedVideo fullPath size = some video)
    (hnone : store.items.find fullPath = none) :
    store.indexFile fullPath size =
      { store.addItem video with systemUpdateId := store.systemUpdateId + 1 } := by
  unfold indexFile
  rw [h]
  dsimp only
  rw [hnone]
  rfl

theorem indexFile_existing {video : VideoFile} {existing : MediaItem}
    (h : indexedVideo fullPath size = some video)
    (hsome : store.items.find fullPath = some existing) :
    store.indexFile fullPath size =
      { store with
        items := store.items.assign fullPath { existing with fileSize := video.fileSize }
        systemUpdateId := store.systemUpdateId + 1 } := by
  unfold indexFile
  rw [h]
  dsimp only
  rw [hsome]

theorem removeFile_some {item : MediaItem} (h : store.items.find fullPath = some item) :
    store.removeFile fullPath =
      { store with
        idToPath := store.idToPath.erase item.id
        items := store.items.erase fullPath
        systemUpdateId := store.systemUpdateId + 1 } := by
  unfold removeFile
  rw [h]

theorem removeFile_none (h : store.items.find fullPath = none) :
    store.removeFile fullPath = store := by
  unfold removeFile
  rw [h]

/-- What the invariant says of given ids is about the id index only. -/
theorem Kept.of_idToPath {history' : List ContentEvent} {store' : ContentStore}
    (hlinked : ∀ id path, store'.idToPath.find id = some path ↔
      ∃ item, store'.items.find path = some item ∧ item.id = id)
    (hown : ∀ path item, store'.items.find path = some item → item.path = path)
    (hpresent : ∀ path item, store'.items.find path = some item → path ∈ found history')
    (hnever : ∀ id path, .given id path ∈ history' →
      ∀ path', store'.idToPath.find id = some path' → path' = path) : Kept history' store' where
  linked := hlinked
  own := hown
  present := hpresent
  never id path hgiven path' hdenotes := by
    obtain ⟨item, hget, rfl⟩ := hdenotes
    obtain ⟨path', hid, hitem⟩ := Option.bind_eq_some_iff.mp hget
    rw [hown path' item hitem]
    exact hnever id path hgiven path' hid

theorem given_of_append {id : MediaId} {path : MediaPath} {event : ContentEvent}
    (hevent : ∀ id path, event ≠ .given id path)
    (h : ContentEvent.given id path ∈ history ++ [event]) : .given id path ∈ history := by
  rcases List.mem_append.mp h with h | h
  · exact h
  · exact absurd (List.mem_singleton.mp h).symm (hevent id path)

theorem Kept.indexFile_new (h : Kept history store) {video : VideoFile}
    (hvideo : indexedVideo fullPath size = some video)
    (hnone : store.items.find fullPath = none) (hfits : NextFits history store fullPath) :
    Kept (history ++ [ContentEvent.indexed fullPath]) (store.indexFile fullPath size) := by
  have hpath := indexedVideo_path hvideo
  subst hpath
  rw [ContentStore.indexFile_new hvideo hnone]
  obtain ⟨hunused, hgiven⟩ := hfits
  refine Kept.of_idToPath (fun id path => ?_) (fun path item => ?_) (fun path item => ?_)
    fun id path hmem path' => ?_
  · show (store.addItem video).idToPath.find id = some path ↔
      ∃ item, (store.addItem video).items.find path = some item ∧ item.id = id
    rw [find_idToPath_addItem, find_addItem hnone]
    have hlinked := h.linked id path
    split <;> split
    · next hid hpath =>
      subst hid hpath
      exact ⟨fun _ => ⟨_, rfl, rfl⟩, fun _ => rfl⟩
    · next hid hpath =>
      refine ⟨fun heq => absurd (Option.some.inj heq).symm hpath, ?_⟩
      rintro ⟨item, hitem, rfl⟩
      exact absurd hid (hunused path item hitem)
    · next hid hpath =>
      subst hpath
      rw [hlinked, hnone]
      refine ⟨fun ⟨_, hitem, _⟩ => (by cases hitem), ?_⟩
      rintro ⟨_, heq, rfl⟩
      exact absurd (congrArg MediaItem.id (Option.some.inj heq)).symm hid
    · exact hlinked
  · show (store.addItem video).items.find path = some item → _
    rw [find_addItem hnone]
    split
    · next hpath =>
      rintro heq
      rw [← Option.some.inj heq, hpath]
      rfl
    · exact h.own path item
  · show (store.addItem video).items.find path = some item → _
    rw [find_addItem hnone, found_append history _ _ rfl]
    split
    · next hpath => exact fun _ => hpath ▸ List.mem_cons_self
    · exact fun hitem => List.mem_cons_of_mem _ (h.present path item hitem)
  · have hmem' := given_of_append (fun _ _ => ContentEvent.noConfusion) hmem
    show (store.addItem video).idToPath.find id = some path' → _
    rw [find_idToPath_addItem]
    split
    · next hid =>
      subst hid
      exact fun heq => (Option.some.inj heq) ▸ hgiven path hmem'
    · exact fun heq => h.never id path hmem' path' (h.denotes_iff.mpr heq)

theorem Kept.indexFile_existing (h : Kept history store) {video : VideoFile}
    {existing : MediaItem} (hvideo : indexedVideo fullPath size = some video)
    (hsome : store.items.find fullPath = some existing) :
    Kept (history ++ [ContentEvent.indexed fullPath]) (store.indexFile fullPath size) := by
  rw [ContentStore.indexFile_existing hvideo hsome]
  have hfind : ∀ path, (store.items.assign fullPath
      { existing with fileSize := video.fileSize }).find path =
      if path = fullPath then some { existing with fileSize := video.fileSize }
      else store.items.find path := fun path => UMap.find_assign _ _ path _
  refine Kept.of_idToPath (fun id path => ?_) (fun path item => ?_) (fun path item => ?_)
    fun id path hmem path' heq => ?_
  · dsimp only
    rw [hfind, h.linked id path]
    split
    · next hpath =>
      subst hpath
      rw [hsome]
      simp
    · exact Iff.rfl
  · dsimp only
    rw [hfind]
    split
    · next hpath =>
      rintro heq
      rw [← Option.some.inj heq, hpath]
      exact h.own fullPath existing hsome
    · exact h.own path item
  · dsimp only
    rw [hfind, found_append history _ _ rfl]
    split
    · next hpath => exact fun _ => hpath ▸ List.mem_cons_self
    · exact fun hitem => List.mem_cons_of_mem _ (h.present path item hitem)
  · exact h.never id path (given_of_append (fun _ _ => ContentEvent.noConfusion) hmem) path'
      (h.denotes_iff.mpr heq)

theorem Kept.removeFile (h : Kept history store) (fullPath : MediaPath) :
    Kept (history ++ [ContentEvent.removed fullPath]) (store.removeFile fullPath) := by
  have hfilter : ∀ path, path ≠ fullPath → path ∈ found history →
      path ∈ found (history ++ [ContentEvent.removed fullPath]) := by
    intro path hne hmem
    rw [found_append history _ _ rfl]
    exact List.mem_filter.mpr ⟨hmem, decide_eq_true hne⟩
  cases hfind : store.items.find fullPath with
  | none =>
    rw [removeFile_none hfind]
    refine Kept.of_idToPath h.linked h.own (fun path item hitem => ?_)
      fun id path hmem path' heq => ?_
    · refine hfilter path ?_ (h.present path item hitem)
      rintro rfl
      rw [hfind] at hitem
      cases hitem
    · exact h.never id path (given_of_append (fun _ _ => ContentEvent.noConfusion) hmem) path'
        (h.denotes_iff.mpr heq)
  | some item =>
    rw [removeFile_some hfind]
    refine Kept.of_idToPath (fun id path => ?_) (fun path other => ?_) (fun path other => ?_)
      fun id path hmem path' => ?_
    · dsimp only
      rw [UMap.find_erase, UMap.find_erase]
      have hlinked := h.linked id path
      have hremoved := h.linked id fullPath
      rw [hfind] at hremoved
      split <;> split
      · simp
      · next hid hpath =>
        refine ⟨fun heq => (by cases heq), ?_⟩
        rintro ⟨other, hother, hother'⟩
        exact absurd (h.distinct hother hfind (hother'.trans hid)) hpath
      · next hid hpath =>
        subst hpath
        rw [hremoved]
        refine ⟨?_, fun ⟨_, hother, _⟩ => (by cases hother)⟩
        rintro ⟨_, heq, rfl⟩
        exact absurd (congrArg MediaItem.id (Option.some.inj heq)).symm hid
      · exact hlinked
    · dsimp only
      rw [UMap.find_erase]
      split
      · exact fun hother => (by cases hother)
      · exact h.own path other
    · dsimp only
      rw [UMap.find_erase]
      split
      · exact fun hother => (by cases hother)
      · next hpath => exact fun hother => hfilter path hpath (h.present path other hother)
    · dsimp only
      rw [UMap.find_erase]
      split
      · exact fun heq => (by cases heq)
      · exact fun heq => h.never id path
          (given_of_append (fun _ _ => ContentEvent.noConfusion) hmem) path'
          (h.denotes_iff.mpr heq)

theorem found_given (history : List ContentEvent) (items : List MediaItem) :
    found (history ++ items.map fun item => ContentEvent.given item.id item.path) =
      found history := by
  unfold found
  rw [List.foldl_append]
  generalize history.foldl _ [] = paths
  induction items with
  | nil => rfl
  | cons item rest ih => exact ih

theorem Kept.listItems (h : Kept history store) :
    Kept (history ++ store.getAllItems.map fun item => ContentEvent.given item.id item.path)
      store := by
  refine Kept.of_idToPath h.linked h.own (fun path item hitem => ?_)
    fun id path hmem path' heq => ?_
  · rw [found_given]
    exact h.present path item hitem
  · rcases List.mem_append.mp hmem with hmem | hmem
    · exact h.never id path hmem path' (h.denotes_iff.mpr heq)
    · obtain ⟨item, hitem, heq'⟩ := List.mem_map.mp hmem
      obtain ⟨⟨key, _⟩, hentry, rfl⟩ := List.mem_map.mp hitem
      cases heq'
      have hfind := UMap.mem_entries.mp hentry
      rw [h.own key _ hfind]
      have hkey := (h.linked _ key).mpr ⟨_, hfind, rfl⟩
      exact Option.some.inj (heq.symm.trans hkey)

/-! ## Runs -/

theorem scan_stable_iff {call : ContentCall}
    (hstep : store.step call = (store.rescanOf dir directory, [scannedPaths dir directory])) :
    StepStable history store call ↔ ScanFits history store dir directory := by
  constructor
  · intro hstable
    have hsame := hstable.same
    have hnever := hstable.never
    have hdistinct := hstable.distinct
    rw [hstep] at hsame hnever hdistinct
    exact scan_iff.mp ⟨hsame, fun id path hgiven => hnever id path (List.mem_append_left _ hgiven),
      hdistinct⟩
  · intro hfits
    refine Kept.stable ?_ ?_ ?_ <;> rw [hstep]
    · exact hfits.kept
    · exact (scan_iff.mpr hfits).1
    · exact fun _ => rescan_systemUpdateId store dir directory

theorem Kept.index_stable_iff (h : Kept history store) (fullPath : MediaPath)
    (size : Option UInt64) : StepStable history store (.indexFile fullPath size) ↔
      StepFits history store (.indexFile fullPath size) := by
  cases hvideo : indexedVideo fullPath size with
  | none =>
    have hstep : store.step (.indexFile fullPath size) = (store, []) := by
      rw [step, indexFile, hvideo]
      rfl
    refine ⟨fun _ hsome => ?_, fun _ => Kept.stable ?_ ?_ ?_⟩
    · rw [hvideo] at hsome
      cases hsome
    · rw [hstep, List.append_nil]
      exact h
    · rw [hstep]
      exact fun id path _ hdenotes _ => hdenotes
    · rw [hstep]
      exact fun hne => absurd rfl hne
  | some video =>
    have hstep : store.step (.indexFile fullPath size) =
        (store.indexFile fullPath size, [.indexed fullPath]) := by
      rw [step, hvideo]
      rfl
    cases hfind : store.items.find fullPath with
    | some existing =>
      have hkept := h.indexFile_existing hvideo hfind
      refine ⟨fun _ _ hnone => ?_, fun _ => Kept.stable ?_ ?_ ?_⟩
      · rw [hfind] at hnone
        cases hnone
      · rw [hstep]
        exact hkept
      · rw [hstep]
        intro id path _ hdenotes _
        rw [hkept.denotes_iff, ContentStore.indexFile_existing hvideo hfind]
        exact h.denotes_iff.mp hdenotes
      · rw [hstep, ContentStore.indexFile_existing hvideo hfind]
        exact fun _ => add_one_ne _
    | none =>
      have hnew := ContentStore.indexFile_new hvideo hfind
      have hpath := indexedVideo_path hvideo
      subst hpath
      have hindexed : (store.addItem video).items.find video.path =
          some (video.item (mediaId store.nextId)) := by
        rw [find_addItem hfind, if_pos rfl]
      constructor
      · intro hstable _ _
        have hnever := hstable.never
        have hdistinct := hstable.distinct
        rw [hstep, hnew] at hnever hdistinct
        refine ⟨fun path item hitem hid => ?_, fun path hgiven => ?_⟩
        · have hother : (store.addItem video).items.find path = some item := by
            rw [find_addItem hfind, if_neg]
            · exact hitem
            · rintro rfl
              rw [hfind] at hitem
              cases hitem
          have hsame := hdistinct path video.path item _ hother hindexed hid
          rw [hsame, hfind] at hitem
          cases hitem
        · refine hnever _ path (List.mem_append_left _ hgiven) video.path
            ⟨video.item (mediaId store.nextId), ?_, rfl⟩
          show ((store.addItem video).idToPath.find _).bind (store.addItem video).items.find = _
          rw [find_idToPath_addItem, if_pos rfl]
          exact hindexed
      · intro hfits
        have hnext := hfits (by rw [hvideo]; rfl) hfind
        have hkept := h.indexFile_new hvideo hfind hnext
        refine Kept.stable ?_ ?_ ?_ <;> rw [hstep]
        · exact hkept
        · intro id path _ hdenotes _
          have hid := h.denotes_iff.mp hdenotes
          obtain ⟨item, hitem, rfl⟩ := (h.linked id path).mp hid
          rw [hkept.denotes_iff, hnew]
          show (store.addItem video).idToPath.find _ = _
          rw [find_idToPath_addItem, if_neg (hnext.1 path item hitem)]
          exact hid
        · rw [hnew]
          exact fun _ => add_one_ne _

theorem Kept.remove_stable (h : Kept history store) (fullPath : MediaPath) :
    StepStable history store (.removeFile fullPath) := by
  have hkept := h.removeFile fullPath
  refine Kept.stable hkept ?_ ?_ <;> dsimp only [step]
  · intro id path _ hdenotes hsome
    rw [hkept.denotes_iff]
    have hid := h.denotes_iff.mp hdenotes
    cases hfind : store.items.find fullPath with
    | none => rwa [removeFile_none hfind]
    | some item =>
      rw [removeFile_some hfind] at hsome ⊢
      dsimp only at hsome ⊢
      rw [UMap.find_erase] at hsome ⊢
      have hne : path ≠ fullPath := by
        rintro rfl
        rw [if_pos rfl] at hsome
        cases hsome
      rw [if_neg]
      · exact hid
      · rintro rfl
        have hremoved := (h.linked item.id fullPath).mpr ⟨item, hfind, rfl⟩
        exact hne (Option.some.inj (hid.symm.trans hremoved))
  · cases hfind : store.items.find fullPath with
    | none =>
      rw [removeFile_none hfind]
      exact fun hne => absurd rfl hne
    | some item =>
      rw [removeFile_some hfind]
      exact fun _ => add_one_ne _

/-- The path of the directory alone changes nothing. -/
theorem Kept.moved (h : Kept history store) (dir : MediaPath) :
    Kept (history ++ []) { store with mediaDirectory := dir } := by
  rw [List.append_nil]
  exact Kept.of_idToPath h.linked h.own h.present fun id path hmem path' heq =>
    h.never id path hmem path' (h.denotes_iff.mpr heq)

theorem Kept.stepStable_iff (h : Kept history store) (call : ContentCall) :
    StepStable history store call ↔ StepFits history store call := by
  cases call with
  | initializeContent dir directory =>
    cases directory with
    | none =>
      refine ⟨fun _ d hd => (by cases hd), fun _ => Kept.stable ?_ ?_ fun hne => absurd rfl hne⟩
      · exact h.moved dir
      · exact fun id path _ hdenotes _ => hdenotes
    | some directory =>
      rw [scan_stable_iff (show store.step (.initializeContent dir (some directory)) =
        (store.rescanOf dir directory, [scannedPaths dir directory]) from rfl)]
      exact ⟨fun hfits d hd => Option.some.inj hd ▸ hfits, fun hfits => hfits directory rfl⟩
  | rescan directory => exact scan_stable_iff rfl
  | indexFile fullPath size => exact h.index_stable_iff fullPath size
  | removeFile fullPath => exact ⟨fun _ => trivial, fun _ => h.remove_stable fullPath⟩
  | listItems =>
    exact ⟨fun _ => trivial, fun _ => Kept.stable h.listItems
      (fun id path _ hdenotes _ => hdenotes) fun hne => absurd rfl hne⟩

theorem Kept.step (h : Kept history store) (call : ContentCall)
    (hfits : StepFits history store call) :
    Kept (history ++ (store.step call).2) (store.step call).1 := by
  cases call with
  | initializeContent dir directory =>
    cases directory with
    | none => exact h.moved dir
    | some directory => exact (hfits directory rfl).kept
  | rescan directory => exact ScanFits.kept (show ScanFits history store _ directory from hfits)
  | indexFile fullPath size =>
    dsimp only [ContentStore.step]
    cases hvideo : indexedVideo fullPath size with
    | none =>
      rw [indexFile, hvideo]
      dsimp only
      rw [Option.map_none, Option.toList_none, List.append_nil]
      exact h
    | some video =>
      cases hfind : store.items.find fullPath with
      | none => exact h.indexFile_new hvideo hfind (hfits (by rw [hvideo]; rfl) hfind)
      | some existing => exact h.indexFile_existing hvideo hfind
  | removeFile fullPath => exact h.removeFile fullPath
  | listItems => exact h.listItems

theorem kept_new : Kept [] new where
  linked id path := by simp [new]
  own path item hitem := by cases hitem
  present path item hitem := by cases hitem
  never id path hgiven := by cases hgiven

/-- In every run, ids mean what they did exactly if every scan numbers the files as before and every
file that is indexed alone gets an id of its own. -/
theorem along_stable_iff (calls : List ContentCall) :
    machine.Along StepStable [] new calls ↔ machine.Along StepFits [] new calls :=
  Machine.along_congr (fun _ _ call hkept hfits => hkept.step call hfits)
    (fun _ _ call hkept => hkept.stepStable_iff call) kept_new

/-- Of two files the first is removed, and the second gets its id. -/
theorem secondFile_not_stable :
    ¬ ∀ calls : List ContentCall, machine.Along StepStable [] new calls := by
  intro h
  have hsteps := h [.initializeContent ['m'] (some ⟨.file "a.ts".toList 1
      (.file "b.ts".toList 1 .done), by simp [Listing.Proper, Listing.names]⟩), .listItems,
    .rescan ⟨.file "b.ts".toList 1 .done, by simp [Listing.Proper, Listing.names]⟩]
  have hnever := hsteps.2.2.1.never "media-001".toList "m/a.ts".toList (by decide +kernel)
    "m/b.ts".toList ⟨⟨"media-001".toList, "m/b.ts".toList, "b.ts".toList, "b".toList,
      "video/mp2t".toList, 1⟩, by decide +kernel, rfl⟩
  exact absurd hnever (by decide +kernel)

end ContentStore

end Alpine
