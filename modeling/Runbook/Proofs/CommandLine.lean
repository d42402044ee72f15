import Runbook.CommandLine

/-!
# Written command lines

The program has its command line read by a reader, of which it needs to know little (`TakesUp`):
options that are written with their values give these values, and others are not given. A command
line that names a file of settings, defines variables, maybe asks to keep going and gives a script
then asks for just that (`TakesUp.exists_read`).

`Arguments.read` is such a reader (`takesUp_read`). Each option brings its value along, so none is
pending when the next one comes, and its reading is one step (`Reading.scan_long`,
`Reading.scan_define`, `Reading.scan_keepGoing`).
-/

namespace Runbook

namespace Arguments

/-- The arguments that name a settings file and a script, with definitions. -/
def written (config : String) (defines : List (String × String)) (keepGoing : Bool)
    (script : String) : List String :=
  ("--config=" ++ config) :: (defines.map (fun d => "-D" ++ (d.1 ++ "=" ++ d.2)) ++
    ((if keepGoing then ["-k"] else []) ++ ["--command=" ++ script]))

/-- The keys of such a command line, the last first. -/
def writtenKeys (defines : List (String × String)) (keepGoing : Bool) : List Key :=
  .command :: ((if keepGoing then [.keepGoing] else []) ++
    (List.replicate defines.length .define ++ [.config]))

/-- Apart from definitions, three keys can be among them. -/
theorem contains_writtenKeys {key : Key} (h : key ≠ .define) (defines : List (String × String))
    (keepGoing : Bool) : (writtenKeys defines keepGoing).contains key =
      (key == .command || (keepGoing && key == .keepGoing) || key == .config) := by
  rw [Bool.eq_iff_iff]
  cases keepGoing <;> simp [writtenKeys, List.mem_replicate, h, or_assoc]

/-- What the program relies on in a reader of command lines. The path and the script are taken as
they stand, and each definition as `readDefine` reads it, in their order; nothing is given that has
not been written. -/
def TakesUp (read : List String → Except UsageError Arguments) : Prop :=
  ∀ (config : String) (defines : List (String × String)) (keepGoing : Bool) (script : String),
    config ≠ "" → (∀ d ∈ defines, readDefine (d.1 ++ "=" ++ d.2) = .ok d) →
    ∃ a, read (written config defines keepGoing script) = .ok a ∧ a.config = config ∧
      a.command = script ∧ a.defines = defines ∧ a.timeout = none ∧
      ∀ key, a.has key = (writtenKeys defines keepGoing).contains key

theorem takeWhile_dropWhile_equals {name : List Char} (h : '=' ∉ name) (value : List Char) :
    (name ++ '=' :: value).takeWhile (· ≠ '=') = name ∧
      (name ++ '=' :: value).dropWhile (· ≠ '=') = '=' :: value := by
  have hall : ∀ c ∈ name, decide (c ≠ '=') = true := by
    intro c hc
    exact decide_eq_true fun heq => h (heq ▸ hc)
  constructor
  · rw [List.takeWhile_append_of_pos hall, List.takeWhile_cons_of_neg (by decide), List.append_nil]
  · rw [List.dropWhile_append_of_pos hall, List.dropWhile_cons_of_neg (by decide)]

theorem readDefine_pair {name : String} (hname : name ≠ "") (hequals : '=' ∉ name.toList)
    (value : String) : readDefine (name ++ "=" ++ value) = .ok (name, value) := by
  have htext : (name ++ "=" ++ value).toList = name.toList ++ '=' :: value.toList := by simp
  obtain ⟨htake, hdrop⟩ := takeWhile_dropWhile_equals hequals value.toList
  have hne : name.toList ≠ [] := by simpa using hname
  unfold readDefine
  simp only [htext, htake, hdrop, if_neg hne, String.ofList_toList]

/-- Only a name that has letters and no equals sign among them is read back. -/
theorem name_of_readDefine {name value : String}
    (h : readDefine (name ++ "=" ++ value) = .ok (name, value)) :
    name ≠ "" ∧ '=' ∉ name.toList := by
  unfold readDefine at h
  dsimp only at h
  split at h
  · nomatch h
  · split at h
    · nomatch h
    · rename_i hne
      have hname := congrArg (String.toList ∘ Prod.fst) (Except.ok.inj h)
      simp only [Function.comp_apply, String.toList_ofList] at hname
      constructor
      · rintro rfl
        exact hne hname
      · intro hequals
        rw [← hname] at hequals
        exact of_decide_eq_true (List.all_eq_true.1 List.all_takeWhile '=' hequals) rfl

theorem conclude_of_store {a b : Arguments} (key : Key) (value : Option String)
    (hvalue : (key.takesValue && value.isNone) = false)
    (hnew : (a.has key && !key.isRepeatable) = false)
    (hstore : a.store key (value.getD "") = .ok b) :
    a.conclude key value = .ok { b with given := key :: b.given } := by
  unfold conclude
  rw [hvalue, hnew, hstore]
  rfl

end Arguments

namespace Reading

open Arguments

/-- An option that brings its value along is concluded at once. -/
theorem accept_value (a : Arguments) (hasScript : Bool) (key : Key) (value : String) :
    accept ⟨a, none, hasScript⟩ key (some value) =
      (a.conclude key (some value)).map fun a => ⟨a, none, hasScript⟩ := by
  unfold accept
  simp only [settle, pure_bind, Option.isNone_some, Bool.and_false, Bool.false_eq_true, if_false]
  rfl

variable {texts : List String}

theorem scan_long {a b : Arguments} {name : List Char} {key : Key} {value text : String}
    (hkey : Key.ofLong? (String.ofList name) = some key) (hvalue : key.takesValue = true)
    (hname : name ≠ [] ∧ '=' ∉ name)
    (htext : text.toList = '-' :: '-' :: (name ++ '=' :: value.toList))
    (hnew : a.has key = false) (hstore : a.store key value = .ok b) :
    scan ⟨a, none, false⟩ (text :: texts) =
      scan ⟨{ b with given := key :: b.given }, none, false⟩ texts := by
  obtain ⟨c, cs, rfl⟩ := List.exists_cons_of_ne_nil hname.1
  obtain ⟨htake, hdrop⟩ := takeWhile_dropWhile_equals hname.2 value.toList
  have hlong : long ⟨a, none, false⟩ (c :: cs ++ '=' :: value.toList) =
      accept ⟨a, none, false⟩ key (some value) := by
    unfold long
    simp only [htake, hdrop, hkey, hvalue, String.ofList_toList, Bool.not_true, Bool.false_and,
      Bool.false_eq_true, if_false]
  have hconclude : a.conclude key (some value) = .ok { b with given := key :: b.given } :=
    conclude_of_store key (some value) (Bool.and_false _) (by rw [hnew]; rfl) hstore
  rw [scan, htext]
  show (long _ (c :: cs ++ '=' :: value.toList)).bind _ = _
  rw [hlong, accept_value, hconclude]
  rfl

theorem scan_define {a : Arguments} {name : String} (hname : name ≠ "")
    (hequals : '=' ∉ name.toList) (value : String) :
    scan ⟨a, none, false⟩ (("-D" ++ (name ++ "=" ++ value)) :: texts) =
      scan ⟨{ a with
          defines := a.defines ++ [(name, value)]
          given := .define :: a.given }, none, false⟩ texts := by
  obtain ⟨d, ds, hchars⟩ := List.exists_cons_of_ne_nil (show name.toList ≠ [] by simpa using hname)
  have hd : d ≠ '=' := by
    rintro rfl
    exact hequals (hchars ▸ List.mem_cons_self)
  have htext : ("-D" ++ (name ++ "=" ++ value)).toList =
      '-' :: 'D' :: d :: (ds ++ '=' :: value.toList) := by simp [hchars]
  have hvalue : String.ofList (d :: (ds ++ '=' :: value.toList)) = name ++ "=" ++ value := by
    apply String.toList_injective
    simp [hchars]
  have hletters : letters ⟨a, none, false⟩ ('D' :: d :: (ds ++ '=' :: value.toList)) =
      accept ⟨a, none, false⟩ .define (some (name ++ "=" ++ value)) := by
    have hkey : Key.ofLetter? 'D' = some .define := rfl
    rw [← hvalue, letters]
    simp only [hkey, Key.takesValue, if_true, if_neg hd]
  have hstore : a.store .define (name ++ "=" ++ value) =
      .ok { a with defines := a.defines ++ [(name, value)] } := by
    unfold Arguments.store
    rw [readDefine_pair hname hequals]
    rfl
  have hconclude := conclude_of_store .define (some (name ++ "=" ++ value)) rfl
    (Bool.and_false _) hstore
  rw [scan, htext]
  show (letters _ _).bind _ = _
  rw [hletters, accept_value, hconclude]
  rfl

theorem scan_keepGoing {a : Arguments} (h : a.has .keepGoing = false) :
    scan ⟨a, none, false⟩ ("-k" :: texts) =
      scan ⟨{ a with given := .keepGoing :: a.given }, none, false⟩ texts := by
  have hconclude : a.conclude .keepGoing none =
      .ok { a with given := .keepGoing :: a.given } :=
    conclude_of_store .keepGoing none rfl (by rw [h]; rfl) rfl
  have haccept : accept ⟨a, none, false⟩ .keepGoing none =
      .ok ⟨{ a with given := .keepGoing :: a.given }, none, false⟩ := by
    unfold accept
    simp only [settle, pure_bind, Key.takesValue, Bool.false_and, Bool.false_eq_true, if_false,
      hconclude]
    rfl
  have hletters : letters ⟨a, none, false⟩ ['k'] = accept ⟨a, none, false⟩ .keepGoing none := by
    have hkey : Key.ofLetter? 'k' = some .keepGoing := rfl
    rw [letters]
    simp only [hkey, Key.takesValue, Bool.false_eq_true, if_false, haccept, letters]
    rfl
  rw [scan, show "-k".toList = ['-', 'k'] from rfl]
  show (letters _ ['k']).bind _ = _
  rw [hletters, haccept]
  rfl

/-- Definitions are taken up in their order. -/
theorem scan_defines {a : Arguments} {defines : List (String × String)}
    (h : ∀ d ∈ defines, d.1 ≠ "" ∧ '=' ∉ d.1.toList) :
    scan ⟨a, none, false⟩ (defines.map (fun d => "-D" ++ (d.1 ++ "=" ++ d.2)) ++ texts) =
      scan ⟨{ a with
          defines := a.defines ++ defines
          given := List.replicate defines.length .define ++ a.given }, none, false⟩ texts := by
  induction defines generalizing a with
  | nil => simp
  | cons d defines ih =>
    obtain ⟨hd, hdefines⟩ := List.forall_mem_cons.1 h
    have hgiven : List.replicate defines.length Key.define ++ .define :: a.given =
        List.replicate (defines.length + 1) .define ++ a.given := by
      rw [List.replicate_succ', List.append_assoc]
      rfl
    rw [List.map_cons, List.cons_append, scan_define hd.1 hd.2, ih hdefines, List.length_cons]
    simp only [hgiven, List.append_assoc, List.cons_append, List.nil_append]

end Reading

namespace Arguments

open Reading

/-- What is understood of a command line that is written so. -/
theorem read_written {config : String} {defines : List (String × String)} (hconfig : config ≠ "")
    (hdefines : ∀ d ∈ defines, d.1 ≠ "" ∧ '=' ∉ d.1.toList) (keepGoing : Bool) (script : String) :
    read (written config defines keepGoing script) = .ok
      { given := writtenKeys defines keepGoing
        config
        command := script
        defines } := by
  let named : Arguments := { config, given := [.config] }
  let defined : Arguments :=
    { named with defines, given := List.replicate defines.length .define ++ [.config] }
  let asked : Arguments :=
    { defined with given := (if keepGoing then [.keepGoing] else []) ++ defined.given }
  have hstore : store {} .config config = .ok { config } := by
    show (readPath config).bind _ = _
    rw [show readPath config = .ok config from if_neg hconfig]
    rfl
  have hfirst := fun texts => @scan_long texts {} _ _ _ config ("--config=" ++ config) rfl rfl
    (by decide : "config".toList ≠ [] ∧ '=' ∉ "config".toList) (by simp) rfl hstore
  have hkeep : ∀ texts, scan ⟨defined, none, false⟩ ((if keepGoing then ["-k"] else []) ++ texts) =
      scan ⟨asked, none, false⟩ texts := by
    have hnew : defined.has .keepGoing = false := by simp [defined, has, List.mem_replicate]
    intro texts
    cases hk : keepGoing with
    | false => simp [asked, hk]
    | true =>
      simp only [if_true, List.singleton_append, scan_keepGoing hnew, asked, hk]
  have hnew : asked.has .command = false := by
    cases hk : keepGoing <;> simp [asked, defined, has, hk, List.mem_replicate]
  have hlast := @scan_long [] asked _ _ _ script ("--command=" ++ script) rfl rfl
    (by decide : "command".toList ≠ [] ∧ '=' ∉ "command".toList) (by simp) hnew rfl
  have hscan : scan {} (written config defines keepGoing script) =
      .ok ⟨{ asked with command := script, given := .command :: asked.given }, none, false⟩ := by
    unfold written
    rw [hfirst, scan_defines hdefines]
    exact (hkeep _).trans hlast
  have hkeys : (writtenKeys defines keepGoing).contains .noConfig = false ∧
      (writtenKeys defines keepGoing).contains .script = false := by
    rw [contains_writtenKeys (by decide), contains_writtenKeys (by decide)]
    cases keepGoing <;> exact ⟨rfl, rfl⟩
  unfold read
  rw [hscan]
  refine if_neg ?_
  show ¬ ((writtenKeys defines keepGoing).contains .noConfig && _ ||
    _ && (writtenKeys defines keepGoing).contains .script) = true
  rw [hkeys.1, hkeys.2, Bool.false_and, Bool.and_false]
  exact Bool.false_ne_true

theorem takesUp_read : TakesUp read := by
  intro config defines keepGoing script hconfig hdefines
  have hnames : ∀ d ∈ defines, d.1 ≠ "" ∧ '=' ∉ d.1.toList :=
    fun d hd => name_of_readDefine (hdefines d hd)
  exact ⟨_, read_written hconfig hnames keepGoing script, rfl, rfl, rfl, rfl, fun _ => rfl⟩

/-- A command line that is written so asks for the file, the script and the definitions, and for
nothing else. -/
theorem TakesUp.exists_read {read : List String → Except UsageError Arguments} (h : TakesUp read)
    {config : String} {defines : List (String × String)} (hconfig : config ≠ "")
    (hdefines : ∀ d ∈ defines, d.1 ≠ "" ∧ '=' ∉ d.1.toList) (keepGoing : Bool) (script : String) :
    ∃ a, read (written config defines keepGoing script) = .ok a ∧ a.configSource = .file config ∧
      a.scriptSource = .command script ∧ a.defines = defines ∧ a.has .keepGoing = keepGoing ∧
      a.timeout = none ∧ a.has .list = false ∧ a.has .json = false := by
  have hvalues : ∀ d ∈ defines, readDefine (d.1 ++ "=" ++ d.2) = .ok d :=
    fun d hd => readDefine_pair (hdefines d hd).1 (hdefines d hd).2 d.2
  obtain ⟨a, hread, hpath, hcommand, hpairs, htimeout, hkeys⟩ :=
    h config defines keepGoing script hconfig hvalues
  have hhas : ∀ key, key ≠ .define →
      a.has key = (key == .command || (keepGoing && key == .keepGoing) || key == .config) :=
    fun key hkey => (hkeys key).trans (contains_writtenKeys hkey defines keepGoing)
  refine ⟨a, hread, ?_, ?_, hpairs, ?_, htimeout, ?_, ?_⟩
  · unfold configSource
    rw [hhas .noConfig (by decide), hhas .config (by decide), hpath]
    cases keepGoing <;> rfl
  · unfold scriptSource
    rw [hhas .command (by decide), hcommand]
    rfl
  · rw [hhas .keepGoing (by decide)]
    cases keepGoing <;> rfl
  · rw [hhas .list (by decide)]
    cases keepGoing <;> rfl
  · rw [hhas .json (by decide)]
    cases keepGoing <;> rfl

end Arguments

end Runbook
