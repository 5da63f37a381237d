import SmartDns.Lib.Bytes

/-!
# Files of the web interface

`server_handle_http_request` looks for the file of a page below the web root.  The path of
the request loses its `.` and `..`; afterwards an extension, an index page or a fallback
page may be put in its place.
-/

namespace SmartDns.Ui

open List

/-- `std::path::Component`. -/
inductive Component
  | rootDir
  | curDir
  | parentDir
  | normal (name : Bytes)
deriving DecidableEq

/-- The components of a path, and whether a slash stands behind them. -/
structure Path where
  components : List Component
  slash : Bool
deriving DecidableEq

inductive Node
  | file
  | dir
deriving DecidableEq

/-- A file system without symbolic links. -/
abbrev FileSystem := List Component → Option Node

def FileSystem.isDir (fs : FileSystem) (path : Path) : Bool :=
  fs path.components = some .dir

/-- `Path::exists`: with a slash behind it, a name is that of a directory. -/
def FileSystem.pathExists (fs : FileSystem) (path : Path) : Bool :=
  fs.isDir path || (fs path.components = some .file && !path.slash)

/-! ## Paths -/

/-- `Path::components`.  It keeps a `.` only in front; `normalize_path` leaves out every one. -/
def components (path : Bytes) : List Component :=
  (if path.head? = some 47 then [.rootDir] else []) ++ (path.splitOn 47).filterMap fun name =>
    if name = [] then none
    else if name = ascii "." then some .curDir
    else if name = ascii ".." then some .parentDir
    else some (.normal name)

/-- `PathBuf::pop`. -/
def pop (ret : List Component) : List Component :=
  if ret.getLast? = some .rootDir then ret else ret.dropLast

/-- The loop of `normalize_path`. -/
def normalizePath (ret : List Component) : List Component → List Component
  | [] => ret
  | .rootDir :: path => normalizePath [.rootDir] path
  | .curDir :: path => normalizePath ret path
  | .parentDir :: path => normalizePath (pop ret) path
  | .normal name :: path => normalizePath (ret ++ [.normal name]) path

/-- `strip_prefix("/")`, where there is one. -/
def stripRoot : List Component → List Component
  | .rootDir :: path => path
  | path => path

/-- `Path::join` with a relative path. -/
def join (root path : List Component) : Path :=
  ⟨root ++ path, path = []⟩

/-- The stem and the extension of a file name: a dot in front belongs to the stem. -/
def splitAtDot (name : Bytes) : Bytes × Option Bytes :=
  let extension := (name.reverse.takeWhile (· ≠ 46)).reverse
  let stem := name.take (name.length - extension.length - 1)
  if stem = [] then (name, none) else (stem, some extension)

/-- `Path::file_name`. -/
def Path.fileName (path : Path) : Option Bytes :=
  match path.components.getLast? with
  | some (.normal name) => some name
  | _ => none

/-- `Path::extension`. -/
def Path.extension (path : Path) : Option Bytes :=
  path.fileName.bind fun name => (splitAtDot name).2

/-- `with_extension("html")`. -/
def Path.withHtml (path : Path) : Path :=
  match path.fileName with
  | some name =>
    ⟨path.components.dropLast ++ [.normal ((splitAtDot name).1 ++ ascii ".html")], false⟩
  | none => path

/-! ## The file of a page -/

section Pages

variable (fs : FileSystem) (root : List Component) (uri : Bytes)

def requestPath : List Component :=
  stripRoot (normalizePath [] (components uri))

/-- A page is looked for under its name without extension, too. -/
def orHtml (filepath : Path) : Path :=
  if filepath.extension.isNone && uri.getLast? ≠ some 47 && fs.pathExists filepath.withHtml then
    filepath.withHtml
  else filepath

def orIndex (filepath : Path) : Path :=
  if fs.isDir filepath then join filepath.components [.normal (ascii "index.html")] else filepath

def orFallback (filepath : Path) : Path :=
  if fs.pathExists filepath then filepath
  else if fs.pathExists (join root [.normal (ascii "404.html")]) then
    join root [.normal (ascii "404.html")]
  else join root [.normal (ascii "index.html")]

def pageFile : Path :=
  let filepath := join root (requestPath uri)
  if !fs.pathExists filepath || fs.isDir filepath then
    orFallback fs root (orIndex fs (orHtml fs uri filepath))
  else filepath

/-- The file that `server_handle_http_request` reads for a request that is not for the API. -/
def servedFile : Option Path :=
  if (requestPath uri).head? = some (.normal (ascii "api")) then none
  else some (pageFile fs root uri)

end Pages

/-- The path leads down from the root, to something below it. -/
def Inside (root : List Component) (path : Path) : Prop :=
  ∃ names : List Bytes, names ≠ [] ∧ path.components = root ++ names.map .normal

/-- The request is for the root without a slash, and there is a page of that name next to it. -/
structure NextToRoot (fs : FileSystem) (root : List Component) (uri : Bytes) : Prop where
  path : requestPath uri = []
  slash : uri.getLast? ≠ some 47
  name : ∃ name, root.getLast? = some (.normal name) ∧ (splitAtDot name).2 = none
  html : fs.pathExists (join root []).withHtml = true
  page : fs.pathExists (orIndex fs (join root []).withHtml) = true

section Inside

variable {fs : FileSystem} {root : List Component} {uri : Bytes} {path : Path}

/-- What `normalize_path` has put together so far: names, with or without a slash in front. -/
def Normalized (ret : List Component) : Prop :=
  ∃ names : List Bytes, ret = names.map .normal ∨ ret = .rootDir :: names.map .normal

theorem Normalized.pop {ret : List Component} (h : Normalized ret) : Normalized (pop ret) := by
  obtain ⟨names, rfl | rfl⟩ := h
  · refine ⟨names.dropLast, .inl ?_⟩
    rw [Ui.pop, if_neg (by simp [getLast?_map]), map_dropLast]
  · rcases names.eq_nil_or_concat with rfl | ⟨names, name, rfl⟩
    · exact ⟨[], .inr rfl⟩
    · refine ⟨names, .inr ?_⟩
      rw [map_concat, concat_eq_append, ← cons_append, Ui.pop, getLast?_concat,
        if_neg (by simp), dropLast_concat]

theorem normalized_normalizePath {ret : List Component} (h : Normalized ret)
    (path : List Component) : Normalized (normalizePath ret path) := by
  induction path generalizing ret with
  | nil => exact h
  | cons component path ih =>
  cases component with
  | rootDir => exact ih ⟨[], .inr rfl⟩
  | curDir => exact ih h
  | parentDir => exact ih h.pop
  | normal name =>
    obtain ⟨names, rfl | rfl⟩ := h
    · exact ih ⟨names ++ [name], .inl (by simp)⟩
    · exact ih ⟨names ++ [name], .inr (by simp)⟩

theorem requestPath_names (uri : Bytes) :
    ∃ names : List Bytes, requestPath uri = names.map .normal := by
  have hstart : Normalized [] := ⟨[], .inl rfl⟩
  obtain ⟨names, h | h⟩ := normalized_normalizePath hstart (components uri)
  · refine ⟨names, ?_⟩
    rw [requestPath, h]
    cases names <;> rfl
  · exact ⟨names, by rw [requestPath, h, stripRoot]⟩

theorem inside_join (name : Bytes) : Inside root (join root [.normal name]) :=
  ⟨[name], by simp, rfl⟩

theorem inside_orFallback (h : fs.pathExists path = true → Inside root path) :
    Inside root (orFallback fs root path) := by
  rw [orFallback]
  split_ifs with hpath
  · exact h hpath
  · exact inside_join _
  · exact inside_join _

theorem Inside.orHtml (h : Inside root path) : Inside root (orHtml fs uri path) := by
  rw [Ui.orHtml]
  split_ifs
  · obtain ⟨names, hne, heq⟩ := h
    obtain ⟨names, name, rfl⟩ := names.eq_nil_or_concat.resolve_left hne
    refine ⟨names ++ [(splitAtDot name).1 ++ ascii ".html"], by simp, ?_⟩
    simp [Path.withHtml, Path.fileName, heq, ← append_assoc]
  · exact h

theorem Inside.orIndex (h : Inside root path) : Inside root (orIndex fs path) := by
  rw [Ui.orIndex]
  split_ifs
  · obtain ⟨names, -, heq⟩ := h
    exact ⟨names ++ [_], by simp, by simp [join, heq]; rfl⟩
  · exact h

theorem inside_index (h : fs.pathExists (Ui.orIndex fs (join root [])) = true) :
    Inside root (Ui.orIndex fs (join root [])) := by
  rw [Ui.orIndex] at h ⊢
  split_ifs at h ⊢ with hdir
  · exact ⟨[ascii "index.html"], by simp, by simp [join]⟩
  · have hslash : (join root []).slash = true := by simp [join]
    simp [FileSystem.pathExists, hdir, hslash] at h

theorem pageFile_root (h : requestPath uri = []) : pageFile fs root uri =
    orFallback fs root (Ui.orIndex fs (Ui.orHtml fs uri (join root []))) := by
  simp [pageFile, h, FileSystem.pathExists, join]

/-- The page next to the root is not below it. -/
theorem NextToRoot.not_inside (h : NextToRoot fs root uri) :
    ¬Inside root (pageFile fs root uri) := by
  obtain ⟨name, hlast, hext⟩ := h.name
  have hnone : (join root []).extension = none := by
    simp [Path.extension, Path.fileName, join, hlast, hext]
  have hhtml : Ui.orHtml fs uri (join root []) = (join root []).withHtml := by
    simp [Ui.orHtml, hnone, h.slash, h.html]
  rw [pageFile_root h.path, hhtml, orFallback, if_pos h.page]
  have hstem : (splitAtDot name).1 = name := by
    rw [splitAtDot] at hext ⊢
    split_ifs at hext ⊢
    rfl
  obtain ⟨front, rfl⟩ := getLast?_eq_some_iff.mp hlast
  have hpath : (join (front ++ [.normal name]) []).withHtml =
      ⟨front ++ [.normal (name ++ ascii ".html")], false⟩ := by
    simp [Path.withHtml, Path.fileName, join, hstem]
  rintro ⟨names, -, heq⟩
  rw [hpath, Ui.orIndex] at heq
  split_ifs at heq <;> simp [join, ascii] at heq

theorem inside_pageFile (h : ¬NextToRoot fs root uri) : Inside root (pageFile fs root uri) := by
  obtain ⟨names, hnames⟩ := requestPath_names uri
  by_cases hpath : requestPath uri = []
  · rw [pageFile_root hpath]
    refine inside_orFallback fun hpage => ?_
    rw [Ui.orHtml] at hpage ⊢
    split_ifs at hpage ⊢ with hhtml
    · simp only [Bool.and_eq_true, decide_eq_true_eq, Option.isNone_iff_eq_none] at hhtml
      -- only a root with a file name has a page next to it
      cases hname : (join root []).fileName with
      | none =>
        rw [Path.withHtml, hname] at hpage ⊢
        exact inside_index hpage
      | some name =>
        refine absurd ⟨hpath, hhtml.1.2, ⟨name, ?_, ?_⟩, hhtml.2, hpage⟩ h
        · rw [Path.fileName] at hname
          split at hname <;> simp_all [join]
        · simpa [Path.extension, hname] using hhtml.1.1
    · exact inside_index hpage
  · have hinside : Inside root (join root (requestPath uri)) := by
      rw [hnames] at hpath ⊢
      exact ⟨names, by simpa using hpath, rfl⟩
    simp only [pageFile]
    split_ifs
    · exact inside_orFallback fun _ => hinside.orHtml.orIndex
    · exact hinside

end Inside

/-- **Static files are served from inside the web root**, except for a page next to it. -/
theorem static_files_inside_iff (fs : FileSystem) (root : List Component) (uri : Bytes) :
    (∀ path, servedFile fs root uri = some path → Inside root path) ↔ ¬NextToRoot fs root uri := by
  constructor
  · intro hinside h
    refine h.not_inside (hinside _ ?_)
    rw [servedFile, h.path]
    rfl
  · intro h path hserved
    rw [servedFile] at hserved
    split_ifs at hserved
    cases hserved
    exact inside_pageFile h

/-- A web root with a page next to it. -/
def siblingPage : FileSystem := fun path =>
  if path = [.rootDir, .normal (ascii "www")] then some .dir
  else if path = [.rootDir, .normal (ascii "www.html")] then some .file
  else none

/-- The path `/.` is answered with the page next to the web root. -/
theorem sibling_page_served :
    ¬∀ path, servedFile siblingPage [.rootDir, .normal (ascii "www")] (ascii "/.") = some path →
      Inside [.rootDir, .normal (ascii "www")] path := by
  intro h
  obtain ⟨names, -, heq⟩ := h ⟨[.rootDir, .normal (ascii "www.html")], false⟩ (by decide)
  simp [ascii] at heq

end SmartDns.Ui
