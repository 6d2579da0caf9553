import QemuTest.Lib.Base64
import QemuTest.Lib.Path
import QemuTest.Lib.Yaml
import QemuTest.Process.Spawn
import QemuTest.Util.Net
import Mathlib.Data.List.Forall2

/-!
# CloudInit

`cloud_init.rs`: the files of the CIDATA disk, and what a YAML reader makes of
its user-data.

A file goes through three formats: its content is encoded, the text stands as
a plain scalar in a mapping, and the mapping is an entry of a list made line by
line. `read_userData` says what is read back, and `writeFiles_survive_iff` for
which contents that is what was passed.
-/

namespace QemuTest

open Text Yaml

/-! ## The disk -/

/-- `GUEST_USER`. -/
def guestUser : Str := lit "cloud"

structure CloudInitDisk where
  path : Str
  ssh_key_path : Str
  net_config : Option NetConfig
  write_files : List (Str × Str)

namespace CloudInitDisk

/-- `new`, with the outcome of `ssh-keygen`. -/
def new (dir : Str) (ssh_keygen : Except Str Unit) : Except Str CloudInitDisk := do
  let ssh_key_path := Path.join dir (lit "id_cloud")
  ssh_keygen
  let path := Path.join dir (lit "cidata.img")
  return { path, ssh_key_path, net_config := none, write_files := [] }

/-- `with_net_config`. -/
def withNetConfig (disk : CloudInitDisk) (net_config : NetConfig) : CloudInitDisk :=
  { disk with net_config := some net_config }

/-- `with_write_files`. -/
def withWriteFiles (disk : CloudInitDisk) (files : List (Str × Str)) : CloudInitDisk :=
  files.foldl (fun disk file => { disk with write_files := disk.write_files ++ [file] }) disk

end CloudInitDisk

/-! ## The files -/

/-- `formatdoc!` with these lines: the indentation they share is gone, what is
interpolated stands as it is. -/
def formatdoc (ls : List Str) : Str := unlines ls

/-- The bytes of a string. -/
def utf8 (s : Str) : List UInt8 := s.flatMap String.utf8EncodeChar

def buildNetworkConfig : NetConfig → Str
  | .UserNet mac => formatdoc [
      lit "version: 2",
      lit "ethernets:",
      lit "  eth0:",
      lit "    match:",
      lit "      macaddress: \"" ++ mac ++ lit "\"",
      lit "    dhcp4: true"]
  | .Tap mac _ guest_ip gateway => formatdoc [
      lit "version: 2",
      lit "ethernets:",
      lit "  eth0:",
      lit "    match:",
      lit "      macaddress: \"" ++ mac ++ lit "\"",
      lit "    addresses:",
      lit "    - \"" ++ guest_ip ++ lit "\"",
      lit "    routes:",
      lit "    - to: \"0.0.0.0/0\"",
      lit "      via: \"" ++ gateway ++ lit "\""]

def metaData : Str := formatdoc [
  lit "instance-id: " ++ guestUser,
  lit "local-hostname: " ++ guestUser]

/-- The lines of the user-data in front of the files. -/
def userLines (public_key : Str) : List Str := [
  lit "#cloud-config",
  lit "users:",
  lit "- name: " ++ guestUser,
  lit "  sudo: ALL=(ALL) NOPASSWD:ALL",
  lit "  lock_passwd: false",
  lit "  ssh_authorized_keys:",
  lit "  - " ++ public_key,
  lit "ssh_pwauth: true"]

/-- The lines of one file. -/
def entryLines (file : Str × Str) : List Str := [
  lit "- path: " ++ file.1,
  lit "  permissions: '0644'",
  lit "  encoding: b64",
  lit "  content: " ++ Base64.encode (utf8 file.2)]

def userData (public_key : Str) (write_files : List (Str × Str)) : Str :=
  formatdoc (userLines public_key) ++
    if write_files.isEmpty then []
    else lit "\nwrite_files:\n" ++ write_files.flatMap fun file => formatdoc (entryLines file)

/-- What `create` meets: the public key file, whether the path has a parent,
and how the other steps end. -/
structure CreateWorld where
  public_key : Option Str
  parent : Bool
  create_dir_all : Except Str Unit
  write : Str → Bool
  runCmd : Str → Except Str Unit

/-- The files of the disk by their names. -/
def CloudInitDisk.files (disk : CloudInitDisk) (public_key : Str) : List (Str × Str) :=
  [(lit "meta-data", metaData), (lit "user-data", userData public_key disk.write_files)] ++
    disk.net_config.toList.map fun net => (lit "network-config", buildNetworkConfig net)

/-- `create`, with the files it puts on the disk. -/
def CloudInitDisk.create (disk : CloudInitDisk) (w : CreateWorld) :
    Except Str (List (Str × Str)) := do
  require w.public_key.isSome (lit "failed to read public key")
  let public_key := trim (w.public_key.getD [])
  require w.parent (lit "no parent dir")
  w.create_dir_all
  let files := disk.files public_key
  for file in files do
    require (w.write file.1) (lit "failed to write " ++ file.1)
  w.runCmd (lit "mkdosfs")
  for _ in files do
    w.runCmd (lit "mcopy")
  return files

theorem bind_eq_ok {ε α β : Type} {x : Except ε α} {f : α → Except ε β} {b : β} :
    x >>= f = .ok b ↔ ∃ a, x = .ok a ∧ f a = .ok b := by
  cases x with
  | error e => simp [bind, Except.bind]
  | ok a => simp [bind, Except.bind]

/-- A disk that was created holds the files made from the public key. -/
theorem create_ok {disk : CloudInitDisk} {w : CreateWorld} {out : List (Str × Str)}
    (h : disk.create w = .ok out) :
    ∃ contents, w.public_key = some contents ∧ out = disk.files (trim contents) := by
  simp only [CloudInitDisk.create, bind_eq_ok] at h
  obtain ⟨_, hread, _, -, _, -, _, -, _, -, _, -, h⟩ := h
  cases hw : w.public_key with
  | none => simp [hw, require] at hread
  | some contents =>
      rw [hw] at h
      exact ⟨contents, rfl, (Except.ok.inj h).symm⟩

/-! ## What is passed -/

/-- The characters of a path: letters, digits, `/`, `.`, `_`, `-`, and beyond
ASCII what can be printed. -/
def isPathChar (c : Char) : Bool :=
  c.isAlphanum || c = '/' || c = '.' || c = '_' || c = '-' || (0x80 ≤ c.toNat && isPrintable c)

def IsFilePath (path : Str) : Prop := path.head? = some '/' ∧ ∀ c ∈ path, isPathChar c = true

/-- What words are made of: it can be printed, and does not end a line, a word,
a key or the text in front of a comment. -/
def isSolid (c : Char) : Bool :=
  isPrintable c && c ≠ '\n' && c ≠ ' ' && c ≠ ':' && c ≠ '#'

/-- A public key as `ssh-keygen` writes it: its type, the key, and the comment
that names the user and the host. -/
def IsPublicKey (key : Str) : Prop :=
  ∃ blob comment, key = lit "ssh-ed25519 " ++ (blob ++ ' ' :: comment) ∧
    comment ≠ [] ∧ ∀ c ∈ blob ++ comment, isSolid c = true

/-! ## What is read -/

/-- The entries of `write_files`; without the key there are none. -/
def writeFilesOf (doc : Node) : Option (List Node) :=
  match doc.get (lit "write_files") with
  | none => some []
  | some (.seq entries) => some entries
  | some _ => none

/-- The entry gives the file back. -/
structure Restored (file : Str × Str) (entry : Node) : Prop where
  path : entry.get (lit "path") = some (.str file.1)
  content : ∃ text, entry.get (lit "content") = some (.str text) ∧
    Base64.decode text = some (utf8 file.2)

/-- The user-data gives the files back, in their order, and the users are those
of the user-data without files. -/
def FilesSurvive (base_text text : Str) (files : List (Str × Str)) : Prop :=
  ∃ base doc users entries,
    read base_text = some base ∧ base.get (lit "users") = some users ∧
    read text = some doc ∧ doc.get (lit "users") = some users ∧
    writeFilesOf doc = some entries ∧ List.Forall₂ Restored files entries

/-! ### Lines -/

variable {key : Str} {files : List (Str × Str)}

/-- The lines of the files. -/
def fileLines (files : List (Str × Str)) : List Str :=
  if files.isEmpty then [] else [[], lit "write_files:"] ++ files.flatMap entryLines

theorem userData_eq (key : Str) (files : List (Str × Str)) :
    userData key files = unlines (userLines key ++ fileLines files) := by
  rw [userData, unlines_append, fileLines]
  split
  · rfl
  · rw [unlines_append]
    congr 1
    congr 1
    · simp [unlines, lit]
    · simp only [formatdoc, unlines, List.flatMap_assoc]

theorem alphanum_range {c : Char} (h : c.isAlphanum = true) :
    0x30 ≤ c.toNat ∧ c.toNat ≤ 0x7A := by
  have hval : c.toNat = c.val.toNat := rfl
  have hcases : ((decide (65 ≤ c.val ∧ c.val ≤ 90) || 97 ≤ c.val && c.val ≤ 122) ||
      48 ≤ c.val && c.val ≤ 57) = true := h
  simp only [Bool.or_eq_true, Bool.and_eq_true, decide_eq_true_eq, UInt32.le_iff_toNat_le]
    at hcases
  simp at hcases
  omega

theorem isSolid_of_path {c : Char} (h : isPathChar c = true) : isSolid c = true := by
  have hmarks : c ≠ '\n' ∧ c ≠ ' ' ∧ c ≠ ':' ∧ c ≠ '#' := by
    refine ⟨?_, ?_, ?_, ?_⟩
    all_goals
      rintro rfl
      exact absurd h (by decide)
  have hprint : isPrintable c = true := by
    simp only [isPathChar, Bool.or_eq_true, decide_eq_true_eq, Bool.and_eq_true] at h
    rcases h with ((((h | rfl) | rfl) | rfl) | rfl) | h
    · have := alphanum_range h
      simp only [isPrintable, Bool.or_eq_true, Bool.and_eq_true, decide_eq_true_eq]
      omega
    · decide
    · decide
    · decide
    · decide
    · exact h.2
  simp [isSolid, hprint, hmarks]

theorem isSolid_of_base64 : ∀ c ∈ '=' :: Base64.alphabet, isSolid c = true :=
  forall_chars (by decide)

/-- A text of solid characters is a plain scalar if it can start one. -/
theorem plain_of_solid {s : Str} (h : ∀ c ∈ s, isSolid c = true) (hstart : plainStart s = true) :
    Plain s where
  start := hstart
  colon hm := absurd (h _ hm) (by decide)
  hash hm := absurd (h _ hm) (by decide)
  head he := absurd (h _ (List.mem_of_head? he)) (by decide)
  last he := absurd (h _ (List.mem_of_getLast? he)) (by decide)

theorem plain_path {p : Str} (h : IsFilePath p) : Plain p := by
  refine plain_of_solid (fun c hc => isSolid_of_path (h.2 c hc)) ?_
  obtain ⟨cs, rfl⟩ := List.head?_eq_some_iff.mp h.1
  cases cs <;> rfl

theorem resolve_path {p : Str} (h : IsFilePath p) : resolve p = .str p := by
  obtain ⟨cs, rfl⟩ := List.head?_eq_some_iff.mp h.1
  have hwords : ∀ w ∈ nullWords ++ trueWords ++ falseWords, w.head? ≠ some '/' := by decide
  exact resolve_str (fun hm => hwords _ hm rfl) (isInt_of_start rfl) (isFloat_of_start rfl)

theorem solid_base64 (bs : List UInt8) : ∀ c ∈ Base64.encode bs, isSolid c = true := by
  intro c hc
  rcases Base64.mem_encode hc with hmem | rfl
  · exact isSolid_of_base64 c (List.mem_cons_of_mem _ hmem)
  · decide

theorem plain_base64 {bs : List UInt8} (h : Base64.encode bs ≠ []) :
    Plain (Base64.encode bs) := by
  refine plain_of_solid (solid_base64 bs) ?_
  obtain ⟨c, cs, heq⟩ := List.exists_cons_of_ne_nil h
  have hplain : c ∉ indicators := by
    have hall : ∀ d ∈ Base64.alphabet, d ∉ indicators := forall_chars (by decide)
    exact hall c (Base64.head_encode heq)
  rw [heq]
  cases cs <;> simp [plainStart, hplain]

theorem key_chars (h : IsPublicKey key) : ∀ c ∈ key, isSolid c = true ∨ c = ' ' := by
  obtain ⟨blob, comment, rfl, -, hchars⟩ := h
  intro c hc
  simp only [List.mem_append, List.mem_cons] at hc
  rcases hc with hc | hc | rfl | hc
  · have hall : ∀ d ∈ lit "ssh-ed25519 ", isSolid d = true ∨ d = ' ' := by
      unfold lit
      exact forall_chars (by decide)
    exact hall c hc
  · exact .inl (hchars c (List.mem_append_left _ hc))
  · exact .inr rfl
  · exact .inl (hchars c (List.mem_append_right _ hc))

theorem plain_key (h : IsPublicKey key) : Plain key := by
  have hin := key_chars h
  obtain ⟨blob, comment, rfl, hne, hchars⟩ := h
  refine ⟨?_, fun hm => ?_, fun hm => ?_, ?_, ?_⟩
  · simp [lit, plainStart, indicators]
  · exact absurd (hin _ hm) (by decide)
  · exact absurd (hin _ hm) (by decide)
  · simp [lit]
  · obtain ⟨cs, c, rfl⟩ := List.eq_nil_or_concat comment |>.resolve_left hne
    have hc : c ≠ ' ' := by
      rintro rfl
      exact absurd (hchars ' ' (by simp)) (by decide)
    have hsplit : lit "ssh-ed25519 " ++ (blob ++ ' ' :: cs.concat c)
        = (lit "ssh-ed25519 " ++ (blob ++ ' ' :: cs)) ++ [c] := by simp
    rw [hsplit, List.getLast?_concat]
    simpa using hc

theorem resolve_key (h : IsPublicKey key) : resolve key = .str key := by
  obtain ⟨blob, comment, rfl, -, -⟩ := h
  have hwords : ∀ w ∈ nullWords ++ trueWords ++ falseWords, ' ' ∉ w := by decide
  have hspace : ' ' ∈ lit "ssh-ed25519 " ++ (blob ++ ' ' :: comment) := by simp
  have hcons : lit "ssh-ed25519 " ++ (blob ++ ' ' :: comment)
      = 's' :: (lit "sh-ed25519 " ++ (blob ++ ' ' :: comment)) := by simp [lit]
  refine resolve_str (fun hm => hwords _ hm hspace) ?_ ?_
  · rw [hcons]
    exact isInt_of_start rfl
  · rw [hcons]
    exact isFloat_of_start rfl

/-! ### Tokens -/

/-- The scalar that is a text. -/
def text (s : String) : Token := .scalar (.str (lit s))

theorem lex_path {p : Str} (h : IsFilePath p) : lexLine (lit "- path: " ++ p) =
    some [(0, .dash), (2, .key (lit "path")), (3, .scalar (.str p))] := by
  have hline : lit "- path: " ++ p = '-' :: ' ' :: (lit "path" ++ ':' :: ' ' :: p) := by
    simp [lit]
  have hkey : isKey (lit "path") = true := by
    unfold lit
    decide
  rw [hline, lexLine_eq (by simp) (by simp), lexText_dash, lexText_entry hkey,
    lexScalar_plain (plain_path h), resolve_path h]
  rfl

theorem lex_content (bs : List UInt8) : lexLine (lit "  content: " ++ Base64.encode bs) =
    some ((2, .key (lit "content")) ::
      if Base64.encode bs = [] then [] else [(3, .scalar (resolve (Base64.encode bs)))]) := by
  have hline : lit "  content: " ++ Base64.encode bs
      = ' ' :: ' ' :: (lit "content" ++ ':' :: ' ' :: Base64.encode bs) := by
    simp [lit]
  have hkey : isKey (lit "content") = true := by
    unfold lit
    decide
  rw [hline, lexLine_eq (by simp) (by simp), lexText, lexText, lexText_entry hkey]
  split
  · rename_i hnil
    rw [hnil]
    rfl
  · rename_i hne
    rw [lexScalar_plain (plain_base64 hne)]
    rfl

theorem lex_key (h : IsPublicKey key) :
    lexLine (lit "  - " ++ key) = some [(2, .dash), (4, .scalar (.str key))] := by
  have hline : lit "  - " ++ key = ' ' :: ' ' :: '-' :: ' ' :: key := by simp [lit]
  rw [hline, lexLine_eq (by simp) (by simp), lexText, lexText, lexText_dash,
    lexText_plain (plain_key h), resolve_key h]
  rfl

theorem lex_permissions : lexLine (lit "  permissions: '0644'") =
    some [(2, .key (lit "permissions")), (3, text "0644")] := by
  unfold text lit
  rfl

theorem lex_encoding : lexLine (lit "  encoding: b64") =
    some [(2, .key (lit "encoding")), (3, text "b64")] := by
  unfold text lit
  rfl

/-! ### Documents -/

/-- The entry of the user, as far as it is read in front of the public key. -/
def userDone : List (Str × Node) := [
  (lit "name", .str (lit "cloud")),
  (lit "sudo", .str (lit "ALL=(ALL) NOPASSWD:ALL")),
  (lit "lock_passwd", .bool false)]

def usersValue (key : Str) : Node :=
  .seq [.map (userDone ++ [(lit "ssh_authorized_keys", .seq [.str key])])]

/-- The mapping of a disk without files. -/
def baseEntries (key : Str) : List (Str × Node) :=
  [(lit "users", usersValue key), (lit "ssh_pwauth", .bool true)]

theorem read_user : [lit "#cloud-config", lit "users:", lit "- name: " ++ guestUser,
      lit "  sudo: ALL=(ALL) NOPASSWD:ALL", lit "  lock_passwd: false",
      lit "  ssh_authorized_keys:"].foldlM readLine [.doc none]
    = some [.map 2 userDone (some (lit "ssh_authorized_keys")), .seq 0 [] true,
        .map 0 [] (some (lit "users")), .doc none] := by
  unfold userDone guestUser lit
  rfl

theorem lex_pwauth : lexLine (lit "ssh_pwauth: true") =
    some [(0, .key (lit "ssh_pwauth")), (1, .scalar (.bool true))] := by
  unfold lit
  rfl

/-- The lines in front of the files. -/
theorem read_userLines (h : IsPublicKey key) : (userLines key).foldlM readLine [.doc none]
    = some [.map 0 (baseEntries key) none, .doc none] := by
  have hsplit : userLines key = [lit "#cloud-config", lit "users:", lit "- name: " ++ guestUser,
      lit "  sudo: ALL=(ALL) NOPASSWD:ALL", lit "  lock_passwd: false",
      lit "  ssh_authorized_keys:"] ++ [lit "  - " ++ key, lit "ssh_pwauth: true"] := rfl
  rw [hsplit, List.foldlM_append, read_user, Option.bind_eq_bind, Option.bind_some,
    readLine_cons (lex_key h) rfl, readLine_cons lex_pwauth rfl]
  rfl

/-- The entry of a file, as far as it is read in front of the content. -/
def fileDone (file : Str × Str) : List (Str × Node) := [
  (lit "path", .str file.1),
  (lit "permissions", .str (lit "0644")),
  (lit "encoding", .str (lit "b64"))]

/-- What is read of a file. -/
def fileValue (file : Str × Str) : Node :=
  .map (fileDone file ++ [(lit "content", resolve (Base64.encode (utf8 file.2)))])

/-- The mapping of a file when its lines have been read: without a text its
content is still awaited. -/
def fileFrame (file : Str × Str) : Frame :=
  let text := Base64.encode (utf8 file.2)
  if text = [] then .map 2 (fileDone file) (some (lit "content"))
  else .map 2 (fileDone file ++ [(lit "content", resolve text)]) none

theorem close_fileFrame (file : Str × Str) : (fileFrame file).close = some (fileValue file) := by
  rw [fileFrame, fileValue]
  split
  · rename_i hnil
    rw [hnil]
    rfl
  · rfl

theorem deeper_fileFrame (file : Str × Str) : (fileFrame file).deeper 0 = true := by
  rw [fileFrame]
  split <;> rfl

/-- The collections that are open behind the lines of a file. -/
def openFile (key : Str) (done : List Node) (file : Str × Str) : List Frame :=
  [fileFrame file, .seq 0 done true, .map 0 (baseEntries key) (some (lit "write_files")),
    .doc none]

/-- The lines of an entry, once its dash has opened it. -/
theorem read_entry {file : Str × Str} (h : IsFilePath file.1) {stack : List Frame}
    {done : List Node}
    (hdash : dashAt 0 stack = some [.seq 0 done true,
      .map 0 (baseEntries key) (some (lit "write_files")), .doc none]) :
    (entryLines file).foldlM readLine stack = some (openFile key done file) := by
  have hpath : [(0, Token.dash), (2, .key (lit "path")), (3, .scalar (.str file.1))].foldlM place
      stack = some [.map 2 [(lit "path", .str file.1)] none, .seq 0 done true,
        .map 0 (baseEntries key) (some (lit "write_files")), .doc none] := by
    rw [List.foldlM_cons, place, hdash]
    rfl
  have hpermissions : [(2, Token.key (lit "permissions")), (3, text "0644")].foldlM place
      [.map 2 [(lit "path", .str file.1)] none, .seq 0 done true,
        .map 0 (baseEntries key) (some (lit "write_files")), .doc none]
      = some [.map 2 [(lit "path", .str file.1), (lit "permissions", .str (lit "0644"))] none,
        .seq 0 done true, .map 0 (baseEntries key) (some (lit "write_files")), .doc none] := rfl
  have hencoding : [(2, Token.key (lit "encoding")), (3, text "b64")].foldlM place
      [.map 2 [(lit "path", .str file.1), (lit "permissions", .str (lit "0644"))] none,
        .seq 0 done true, .map 0 (baseEntries key) (some (lit "write_files")), .doc none]
      = some [.map 2 (fileDone file) none, .seq 0 done true,
        .map 0 (baseEntries key) (some (lit "write_files")), .doc none] := rfl
  rw [entryLines, readLine_cons (lex_path h) hpath, readLine_cons lex_permissions hpermissions,
    readLine_cons lex_encoding hencoding,
    readLine_cons (lex_content _) (t := openFile key done file)]
  · rfl
  · rw [openFile, fileFrame]
    by_cases hnil : Base64.encode (utf8 file.2) = []
    · rw [if_pos hnil, if_pos hnil]
      rfl
    · rw [if_neg hnil, if_neg hnil]
      rfl

/-- The dash of the next entry closes the file before it. -/
theorem dash_openFile (key : Str) (done : List Node) (file : Str × Str) :
    dashAt 0 (openFile key done file) = some [.seq 0 (done ++ [fileValue file]) true,
      .map 0 (baseEntries key) (some (lit "write_files")), .doc none] := by
  rw [dashAt, openFile, unwind, Frame.accept]
  simp only [Option.bind_eq_bind, Option.bind_some, deeper_fileFrame, if_true, close_fileFrame]
  rfl

/-- **The files**: behind the lines of all of them the last one is open. -/
theorem read_files {file : Str × Str} {files : List (Str × Str)}
    (h : ∀ f ∈ file :: files, IsFilePath f.1) {stack : List Frame} {done : List Node}
    (hdash : dashAt 0 stack = some [.seq 0 done true,
      .map 0 (baseEntries key) (some (lit "write_files")), .doc none]) :
    ∃ init last, file :: files = init ++ [last] ∧
      ((file :: files).flatMap entryLines).foldlM readLine stack
        = some (openFile key (done ++ init.map fileValue) last) := by
  induction files generalizing file stack done with
  | nil =>
      refine ⟨[], file, rfl, ?_⟩
      rw [List.flatMap_singleton, read_entry (h file List.mem_cons_self) hdash]
      simp
  | cons next files ih =>
      obtain ⟨init, last, heq, hread⟩ := ih (fun f hf => h f (List.mem_cons_of_mem _ hf))
        (dash_openFile key done file)
      refine ⟨file :: init, last, by rw [heq, List.cons_append], ?_⟩
      rw [List.flatMap_cons, List.foldlM_append, read_entry (h file List.mem_cons_self) hdash,
        Option.bind_eq_bind, Option.bind_some, hread]
      simp

theorem finish_openFile (key : Str) (done : List Node) (file : Str × Str) :
    finish (openFile key done file) = some (.map (baseEntries key ++
      [(lit "write_files", .seq (done ++ [fileValue file]))])) := by
  have hdoc : (fileFrame file).isDoc = false := by
    rw [fileFrame]
    split <;> rfl
  rw [finish, openFile, unwind, Frame.accept]
  simp only [Option.bind_eq_bind, Option.bind_some, hdoc, Bool.not_false, if_true,
    close_fileFrame]
  rfl

/-- The characters of a line. -/
def isLineChar (c : Char) : Bool := isPrintable c && c ≠ '\n'

theorem isLineChar_of_solid {c : Char} (h : isSolid c = true) : isLineChar c = true := by
  simp only [isSolid, Bool.and_eq_true] at h
  simp only [isLineChar, h.1.1.1.1, h.1.1.1.2, Bool.and_self]

/-- What the templates write. -/
theorem template_chars : ∀ s ∈ ["#cloud-config", "users:", "- name: ", "cloud",
    "  sudo: ALL=(ALL) NOPASSWD:ALL", "  lock_passwd: false", "  ssh_authorized_keys:", "  - ",
    "ssh_pwauth: true", "write_files:", "- path: ", "  permissions: '0644'", "  encoding: b64",
    "  content: "], (lit s).all isLineChar = true := by
  unfold lit
  decide

theorem userLines_chars (h : IsPublicKey key) :
    ∀ l ∈ userLines key, ∀ c ∈ l, isLineChar c = true := by
  intro l hl c hc
  simp only [userLines, List.mem_cons, List.not_mem_nil, or_false] at hl
  rcases hl with rfl | rfl | rfl | rfl | rfl | rfl | rfl | rfl
  case inr.inr.inl =>
    rcases List.mem_append.mp hc with hc | hc
    · exact List.all_eq_true.mp (template_chars _ (by simp)) c hc
    · exact List.all_eq_true.mp (template_chars "cloud" (by simp)) c hc
  case inr.inr.inr.inr.inr.inr.inl =>
    rcases List.mem_append.mp hc with hc | hc
    · exact List.all_eq_true.mp (template_chars _ (by simp)) c hc
    · rcases key_chars h c hc with hsolid | rfl
      · exact isLineChar_of_solid hsolid
      · decide
  all_goals exact List.all_eq_true.mp (template_chars _ (by simp)) c hc

theorem entryLines_chars {file : Str × Str} (h : IsFilePath file.1) :
    ∀ l ∈ entryLines file, ∀ c ∈ l, isLineChar c = true := by
  intro l hl c hc
  simp only [entryLines, List.mem_cons, List.not_mem_nil, or_false] at hl
  rcases hl with rfl | rfl | rfl | rfl
  · rcases List.mem_append.mp hc with hc | hc
    · exact List.all_eq_true.mp (template_chars _ (by simp)) c hc
    · exact isLineChar_of_solid (isSolid_of_path (h.2 c hc))
  · exact List.all_eq_true.mp (template_chars _ (by simp)) c hc
  · exact List.all_eq_true.mp (template_chars _ (by simp)) c hc
  · rcases List.mem_append.mp hc with hc | hc
    · exact List.all_eq_true.mp (template_chars _ (by simp)) c hc
    · exact isLineChar_of_solid (solid_base64 _ c hc)

theorem fileLines_chars (h : ∀ f ∈ files, IsFilePath f.1) :
    ∀ l ∈ fileLines files, ∀ c ∈ l, isLineChar c = true := by
  intro l hl c hc
  rw [fileLines] at hl
  split at hl
  · cases hl
  · simp only [List.cons_append, List.nil_append, List.mem_cons, List.mem_flatMap] at hl
    rcases hl with rfl | rfl | ⟨file, hfile, hl⟩
    · cases hc
    · exact List.all_eq_true.mp (template_chars _ (by simp)) c hc
    · exact entryLines_chars (h file hfile) l hl c hc

/-- The mapping of a disk. -/
def docEntries (key : Str) (files : List (Str × Str)) : List (Str × Node) :=
  baseEntries key ++
    if files.isEmpty then [] else [(lit "write_files", .seq (files.map fileValue))]

/-- **What is read** of the user-data. -/
theorem read_userData (hkey : IsPublicKey key) (hfiles : ∀ f ∈ files, IsFilePath f.1) :
    read (userData key files) = some (.map (docEntries key files)) := by
  have hchars : ∀ l ∈ userLines key ++ fileLines files, ∀ c ∈ l, isLineChar c = true := by
    intro l hl
    rcases List.mem_append.mp hl with hl | hl
    · exact userLines_chars hkey l hl
    · exact fileLines_chars hfiles l hl
  have hclean : ∀ l ∈ userLines key ++ fileLines files, '\n' ∉ l := fun l hl hm =>
    absurd (hchars l hl _ hm) (by decide)
  have hprint : ∀ l ∈ userLines key ++ fileLines files, l.all isPrintable = true := by
    intro l hl
    rw [List.all_eq_true]
    exact fun c hc => (Bool.and_eq_true_iff.mp (hchars l hl c hc)).1
  rw [userData_eq, read_unlines hclean hprint, List.foldlM_append, read_userLines hkey,
    Option.bind_eq_bind, Option.bind_some, docEntries, fileLines]
  cases files with
  | nil => rfl
  | cons file files =>
      have hlex : lexLine (lit "write_files:") = some [(0, .key (lit "write_files"))] := by
        unfold lit
        rfl
      have hopen : [(0, Token.key (lit "write_files"))].foldlM place
          [.map 0 (baseEntries key) none, .doc none]
          = some [.map 0 (baseEntries key) (some (lit "write_files")), .doc none] := rfl
      have hdash : dashAt 0 [.map 0 (baseEntries key) (some (lit "write_files")), .doc none]
          = some [.seq 0 [] true, .map 0 (baseEntries key) (some (lit "write_files")),
            .doc none] := rfl
      obtain ⟨init, last, heq, hread⟩ := read_files hfiles hdash
      simp only [List.isEmpty_cons, Bool.false_eq_true, if_false, List.cons_append,
        List.nil_append]
      have hblank : lexLine [] = some [] := rfl
      rw [readLine_cons hblank rfl, readLine_cons hlex hopen, hread,
        Option.bind_some, finish_openFile, heq, List.nil_append, List.map_append]
      rfl

/-! ## Which contents survive -/

/-- An encoded text that stays a text when it stands unquoted: it is there, it
is no word for null or a boolean, and no form of an integer. -/
def KeptAsText (text : Str) : Prop :=
  text ≠ [] ∧
  text ∉ [lit "null", lit "Null", lit "NULL", lit "true", lit "True", lit "TRUE"] ∧
  isInt text = false

/-- The words that are as long as an encoded text can be. -/
theorem words_of_length : ∀ w ∈ nullWords ++ trueWords ++ falseWords, w.length % 4 = 0 →
    w = [] ∨ w ∈ [lit "null", lit "Null", lit "NULL", lit "true", lit "True", lit "TRUE"] := by
  unfold lit
  decide

theorem short_words : ∀ w ∈ [lit "null", lit "Null", lit "NULL", lit "true", lit "True",
    lit "TRUE"], w ∈ nullWords ++ trueWords := by
  unfold lit
  decide

theorem isFloat_base64 (bs : List UInt8) : isFloat (Base64.encode bs) = false := by
  refine isFloat_of_notMem fun hm => ?_
  rcases Base64.mem_encode hm with hmem | hpad
  · exact absurd hmem (by decide)
  · cases hpad

theorem resolve_base64 (bs : List UInt8) :
    (∃ t, resolve (Base64.encode bs) = .str t ∧ Base64.decode t = some bs) ↔
      KeptAsText (Base64.encode bs) := by
  constructor
  · rintro ⟨t, hres, -⟩
    obtain ⟨hwords, hint, -, -⟩ := resolve_eq_str.mp hres
    refine ⟨fun hnil => hwords (by rw [hnil]; decide), fun hm => hwords ?_, hint⟩
    exact List.mem_append_left _ (short_words _ hm)
  · intro h
    refine ⟨Base64.encode bs, resolve_str (fun hm => ?_) h.2.2 (isFloat_base64 bs), by simp⟩
    rcases words_of_length _ hm (Base64.length_encode bs) with hnil | hword
    · exact h.1 hnil
    · exact h.2.1 hword

/-- The entry of a file gives it back if its encoded content stays a text. -/
theorem restored_iff (file : Str × Str) :
    Restored file (fileValue file) ↔ KeptAsText (Base64.encode (utf8 file.2)) := by
  have hpath : (fileValue file).get (lit "path") = some (.str file.1) := by
    simp [fileValue, fileDone, Node.get, lit]
  have hcontent : (fileValue file).get (lit "content")
      = some (resolve (Base64.encode (utf8 file.2))) := by
    simp [fileValue, fileDone, Node.get, lit]
  rw [← resolve_base64]
  constructor
  · rintro ⟨-, t, hget, hdecode⟩
    rw [hcontent] at hget
    exact ⟨t, Option.some.inj hget, hdecode⟩
  · rintro ⟨t, hres, hdecode⟩
    exact ⟨hpath, t, by rw [hcontent, hres], hdecode⟩

/-- A new disk has no files. -/
theorem write_files_new {dir : Str} {ssh_keygen : Except Str Unit} {disk : CloudInitDisk}
    (h : CloudInitDisk.new dir ssh_keygen = .ok disk) : disk.write_files = [] := by
  rw [CloudInitDisk.new, bind_eq_ok] at h
  obtain ⟨_, -, h⟩ := h
  obtain rfl := Except.ok.inj h
  rfl

/-- The disk after any number of calls holds all the files, in their order. -/
theorem write_files_calls (disk : CloudInitDisk) (calls : List (List (Str × Str))) :
    (calls.foldl CloudInitDisk.withWriteFiles disk).write_files
      = disk.write_files ++ calls.flatten := by
  have hone : ∀ (files : List (Str × Str)) (disk : CloudInitDisk),
      (disk.withWriteFiles files).write_files = disk.write_files ++ files := by
    intro files
    induction files with
    | nil => simp [CloudInitDisk.withWriteFiles]
    | cons file files ih =>
        intro disk
        have hstep := ih { disk with write_files := disk.write_files ++ [file] }
        rw [List.append_assoc, List.singleton_append] at hstep
        exact hstep
  induction calls generalizing disk with
  | nil => simp
  | cons files calls ih =>
      rw [List.foldl_cons, ih, hone, List.flatten_cons, List.append_assoc]

theorem filesSurvive_iff (hkey : IsPublicKey key) (hfiles : ∀ f ∈ files, IsFilePath f.1) :
    FilesSurvive (userData key []) (userData key files) files ↔
      ∀ file ∈ files, KeptAsText (Base64.encode (utf8 file.2)) := by
  have hentries : writeFilesOf (.map (docEntries key files)) = some (files.map fileValue) := by
    cases files <;> simp [writeFilesOf, Node.get, docEntries, baseEntries, lit]
  have husers : ∀ fs, (Node.map (docEntries key fs)).get (lit "users")
      = some (usersValue key) := by
    intro fs
    simp [Node.get, docEntries, baseEntries]
  have hforall : List.Forall₂ Restored files (files.map fileValue) ↔
      ∀ file ∈ files, KeptAsText (Base64.encode (utf8 file.2)) := by
    rw [List.forall₂_map_right_iff, List.forall₂_same]
    exact forall₂_congr fun file _ => restored_iff file
  rw [← hforall]
  constructor
  · rintro ⟨-, doc, -, entries, -, -, hread, -, hget, hall⟩
    rw [read_userData hkey hfiles] at hread
    obtain rfl := Option.some.inj hread
    rw [hentries] at hget
    obtain rfl := Option.some.inj hget
    exact hall
  · intro hall
    exact ⟨_, _, _, _, read_userData hkey (by simp), husers [], read_userData hkey hfiles,
      husers files, hentries, hall⟩

/-- **Which files survive**: the user-data of a disk that was created gives back
all files passed over any number of calls if every encoded content stays a
text. -/
theorem writeFiles_survive_iff {dir : Str} {ssh_keygen : Except Str Unit}
    {disk : CloudInitDisk} (hnew : CloudInitDisk.new dir ssh_keygen = .ok disk)
    (calls : List (List (Str × Str))) (hpaths : ∀ file ∈ calls.flatten, IsFilePath file.1)
    {w : CreateWorld} {contents : Str} (hw : w.public_key = some contents)
    (hkey : IsPublicKey (trim contents)) {out : List (Str × Str)}
    (hcreate : (calls.foldl CloudInitDisk.withWriteFiles disk).create w = .ok out)
    {text : Str} (htext : (lit "user-data", text) ∈ out) :
    FilesSurvive (userData (trim contents) []) text calls.flatten ↔
      ∀ file ∈ calls.flatten, KeptAsText (Base64.encode (utf8 file.2)) := by
  obtain ⟨contents', hw', rfl⟩ := create_ok hcreate
  obtain rfl : contents = contents' := Option.some.inj (hw.symm.trans hw')
  have hdata : text = userData (trim contents) calls.flatten := by
    simp only [CloudInitDisk.files, write_files_calls, write_files_new hnew,
      List.nil_append, List.mem_append, List.mem_cons, List.not_mem_nil, or_false, List.mem_map, Prod.mk.injEq] at htext
    rcases htext with (⟨hname, -⟩ | ⟨-, htext⟩) | ⟨_, -, hname, -⟩
    · simp [lit] at hname
    · exact htext
    · simp [lit] at hname
  rw [hdata]
  exact filesSurvive_iff hkey hpaths

/-- A public key file, and a run of `create` in which every step works. -/
def keyFile : Str := lit "ssh-ed25519 AAAAC3Nz cloud@host\n"

def works : CreateWorld where
  public_key := some keyFile
  parent := true
  create_dir_all := .ok ()
  write _ := true
  runCmd _ := .ok ()

def freshDisk : CloudInitDisk where
  path := Path.join (lit "/tmp/d") (lit "cidata.img")
  ssh_key_path := Path.join (lit "/tmp/d") (lit "id_cloud")
  net_config := none
  write_files := []

theorem new_freshDisk : CloudInitDisk.new (lit "/tmp/d") (.ok ()) = .ok freshDisk := rfl

theorem trim_keyFile : trim keyFile = lit "ssh-ed25519 AAAAC3Nz cloud@host" := by
  unfold keyFile lit
  decide

theorem isPublicKey_keyFile : IsPublicKey (trim keyFile) := by
  refine ⟨lit "AAAAC3Nz", lit "cloud@host", ?_, ?_, ?_⟩
  · rw [trim_keyFile]
    simp [lit]
  · simp [lit]
  · unfold lit
    exact forall_chars (by decide)

theorem create_works (disk : CloudInitDisk) :
    disk.create works = .ok (disk.files (trim keyFile)) := by
  cases h : disk.net_config <;>
    simp [CloudInitDisk.create, works, require, CloudInitDisk.files, h] <;> rfl

/-- A file without content, and one whose encoded content is `0400`. -/
def lostFiles : List (Str × Str) :=
  [(['/', 'a'], []), (['/', 'b'], [Char.ofNat 0x4cd, '4'])]

/-- Neither survives. -/
theorem writeFiles_not_survive : (∀ file ∈ lostFiles, IsFilePath file.1) ∧
    ∃ out, ([lostFiles].foldl CloudInitDisk.withWriteFiles freshDisk).create works = .ok out ∧
      (∃ text, (lit "user-data", text) ∈ out ∧
        ¬ FilesSurvive (userData (trim keyFile) []) text lostFiles) ∧
      ∀ file ∈ lostFiles, ¬ Restored file (fileValue file) := by
  have hpaths : ∀ file ∈ lostFiles, IsFilePath file.1 := by
    simp only [lostFiles, List.mem_cons, List.not_mem_nil, or_false]
    rintro _ (rfl | rfl)
    · exact ⟨rfl, forall_chars (by decide)⟩
    · exact ⟨rfl, forall_chars (by decide)⟩
  have hlost : ∀ file ∈ lostFiles, ¬ KeptAsText (Base64.encode (utf8 file.2)) := by
    simp only [lostFiles, List.mem_cons, List.not_mem_nil, or_false]
    rintro _ (rfl | rfl) ⟨hne, -, hint⟩
    · exact hne rfl
    · revert hint
      decide
  have htext : (lit "user-data", userData (trim keyFile) lostFiles) ∈
      ([lostFiles].foldl CloudInitDisk.withWriteFiles freshDisk).files (trim keyFile) :=
    List.mem_append_left _ (List.mem_cons_of_mem _ List.mem_cons_self)
  refine ⟨hpaths, _, create_works _, ⟨_, htext, fun hsurvive => ?_⟩, fun file hfile => ?_⟩
  · have hkept := (filesSurvive_iff isPublicKey_keyFile hpaths).mp hsurvive
    exact hlost _ List.mem_cons_self (hkept _ List.mem_cons_self)
  · rw [restored_iff]
    exact hlost file hfile

/-- The files of two calls, whose encoded contents are texts. -/
def keptFiles : List (List (Str × Str)) :=
  [[(['/', 'a'], ['M', 'a', 'n'])], [(['/', 'b'], ['x']), (['/', 'c'], ['y', 'z'])]]

theorem writeFiles_survive_kept : ∃ text,
    FilesSurvive (userData (trim keyFile) []) text keptFiles.flatten := by
  have hpaths : ∀ file ∈ keptFiles.flatten, IsFilePath file.1 := by
    simp only [keptFiles, List.flatten_cons, List.flatten_nil, List.cons_append,
      List.nil_append, List.append_nil, List.mem_cons, List.not_mem_nil, or_false]
    rintro _ (rfl | rfl | rfl)
    · exact ⟨rfl, forall_chars (by decide)⟩
    · exact ⟨rfl, forall_chars (by decide)⟩
    · exact ⟨rfl, forall_chars (by decide)⟩
  have htext : (lit "user-data", userData (trim keyFile) (keptFiles.foldl
      CloudInitDisk.withWriteFiles freshDisk).write_files) ∈
      (keptFiles.foldl CloudInitDisk.withWriteFiles freshDisk).files (trim keyFile) :=
    List.mem_append_left _ (List.mem_cons_of_mem _ List.mem_cons_self)
  refine ⟨_, (writeFiles_survive_iff new_freshDisk keptFiles hpaths rfl isPublicKey_keyFile
    (create_works _) htext).mpr ?_⟩
  simp only [keptFiles, List.flatten_cons, List.flatten_nil, List.cons_append,
    List.nil_append, List.append_nil, List.mem_cons, List.not_mem_nil, or_false]
  rintro _ (rfl | rfl | rfl)
  all_goals
    refine ⟨?_, ?_, ?_⟩
    · decide
    · unfold lit
      decide
    · decide

end QemuTest
