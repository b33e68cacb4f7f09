import Hummingbird.Adapter.Descriptor
import Hummingbird.Foundation.Runs
import Mathlib.Data.List.DropRight

/-!
The typed configuration store: a schema of keys with types, defaults and bounds, one entry for
each key, and the three ways values arrive. A text is its characters in front of the `NUL`.
The answers of the allocator, of the file system and of the environment come with each call.
-/

namespace Hummingbird

inductive ConfigType where
  | bool
  | int
  | uint
  | string
  deriving DecidableEq, Repr

def hbiConfigTypeStr : ConfigType → String
  | .bool => "bool"
  | .int => "int"
  | .uint => "uint"
  | .string => "string"

inductive ConfigSource where
  | default
  | file
  | env
  | set
  deriving DecidableEq, Repr

/-- The number of a source in `hbi_config_source`. -/
def ConfigSource.rank : ConfigSource → Nat
  | .default => 0
  | .file => 1
  | .env => 2
  | .set => 3

/-- `hbi_config_desc` without the help text. -/
structure ConfigDesc where
  key : List Char
  type : ConfigType
  env : Option (List Char)
  defBool : Bool
  defInt : Int
  defUint : Nat
  defString : Option (List Char)
  minInt : Int
  maxInt : Int
  minUint : Nat
  maxUint : Nat
  deriving DecidableEq, Repr

inductive ConfigValue where
  | bool (b : Bool)
  | int (i : Int)
  | uint (u : Nat)
  | string (s : List Char)
  deriving DecidableEq, Repr

/-- `hbi_config_entry`. -/
structure ConfigEntry where
  desc : ConfigDesc
  source : ConfigSource
  value : ConfigValue
  deriving DecidableEq, Repr

/-- `hbi_config`. -/
structure ConfigStore where
  entries : List ConfigEntry
  deriving DecidableEq, Repr

/-- The value that `hbi_config_create` starts an entry with. -/
def ConfigDesc.initial (d : ConfigDesc) : ConfigValue :=
  match d.type with
  | .bool => .bool d.defBool
  | .int => .int d.defInt
  | .uint => .uint d.defUint
  | .string => .string (d.defString.getD [])

def ConfigDesc.IntOutOfRange (d : ConfigDesc) (v : Int) : Prop :=
  ¬ (d.minInt = 0 ∧ d.maxInt = 0) ∧ (v < d.minInt ∨ v > d.maxInt)

instance (d : ConfigDesc) (v : Int) : Decidable (d.IntOutOfRange v) :=
  inferInstanceAs (Decidable (_ ∧ _))

def ConfigDesc.UintOutOfRange (d : ConfigDesc) (v : Nat) : Prop :=
  ¬ (d.minUint = 0 ∧ d.maxUint = 0) ∧ (v < d.minUint ∨ v > d.maxUint)

instance (d : ConfigDesc) (v : Nat) : Decidable (d.UintOutOfRange v) :=
  inferInstanceAs (Decidable (_ ∧ _))

def setBool (e : ConfigEntry) (v : Bool) (src : ConfigSource) : Result ConfigEntry :=
  .ok { e with value := .bool v, source := src }

def setInt (e : ConfigEntry) (v : Int) (src : ConfigSource) : Result ConfigEntry :=
  if e.desc.IntOutOfRange v then
    errSet .corrupt (s!"config '{String.ofList e.desc.key}': {v} out of range " ++
      s!"[{e.desc.minInt},{e.desc.maxInt}]")
  else .ok { e with value := .int v, source := src }

def setUint (e : ConfigEntry) (v : Nat) (src : ConfigSource) : Result ConfigEntry :=
  if e.desc.UintOutOfRange v then
    errSet .corrupt (s!"config '{String.ofList e.desc.key}': {v} out of range " ++
      s!"[{e.desc.minUint},{e.desc.maxUint}]")
  else .ok { e with value := .uint v, source := src }

/-- The copy of the text is granted or refused. -/
def setString (e : ConfigEntry) (v : List Char) (src : ConfigSource) (allocated : Bool) :
    Result ConfigEntry :=
  if allocated = false then errSet .oom "config: string copy failed"
  else .ok { e with value := .string v, source := src }

/-- `strtoull` in base ten: a number that is too large becomes the largest one, and a minus
sign negates in 64 bits. -/
def strtoull (s : List Char) : Nat × List Char :=
  let body := s.dropWhile isSpaceC
  let (negative, body) := match body with
    | '-' :: rest => (true, rest)
    | '+' :: rest => (false, rest)
    | rest => (false, rest)
  let digits := body.takeWhile Char.isDigit
  if digits.isEmpty then (0, s)
  else
    let n := digits.foldl (fun n c => 10 * n + (c.toNat - '0'.toNat)) 0
    let v := if n ≥ sizeTSize then sizeTSize - 1
      else if negative then (sizeTSize - n) % sizeTSize else n
    (v, body.dropWhile Char.isDigit)

/-- The words for a boolean. -/
def parseBool (text : List Char) : Option Bool :=
  if text = ['1'] ∨ text = "true".toList ∨ text = "on".toList ∨ text = "yes".toList then some true
  else if text = ['0'] ∨ text = "false".toList ∨ text = "off".toList ∨ text = "no".toList then
    some false
  else none

def assignFromText (e : ConfigEntry) (text : List Char) (src : ConfigSource)
    (allocated : Bool) : Result ConfigEntry :=
  let key := String.ofList e.desc.key
  match e.desc.type with
  | .bool =>
      match parseBool text with
      | none => errSet .corrupt s!"config '{key}': '{String.ofList text}' is not a bool"
      | some v => setBool e v src
  | .int =>
      let (v, rest) := strtol text
      if rest = text ∨ rest ≠ [] then
        errSet .corrupt s!"config '{key}': '{String.ofList text}' is not an int"
      else setInt e v src
  | .uint =>
      if text.head? = some '-' then
        errSet .corrupt s!"config '{key}': '{String.ofList text}' is negative"
      else
        let (v, rest) := strtoull text
        if rest = text ∨ rest ≠ [] then
          errSet .corrupt s!"config '{key}': '{String.ofList text}' is not a uint"
        else setUint e v src
  | .string => setString e text src allocated

/-- The loop of `validate_schema`, with the descriptors it has passed. -/
def validateSchema (before : List ConfigDesc) : List ConfigDesc → Result Unit
  | [] => .ok ()
  | d :: ds =>
      let key := String.ofList d.key
      if before.any fun p => p.key = d.key then
        errSet .corrupt s!"config schema: duplicate key '{key}'"
      else if d.type = .int ∧ d.minInt > d.maxInt then
        errSet .corrupt s!"config schema: '{key}' min_int > max_int"
      else if d.type = .uint ∧ d.minUint > d.maxUint then
        errSet .corrupt s!"config schema: '{key}' min_uint > max_uint"
      else if d.type = .string ∧ d.defString = none then
        errSet .corrupt s!"config schema: '{key}' string default is NULL"
      else validateSchema (before ++ [d]) ds

/-- The answers to the requests of `hbi_config_create`. -/
structure ConfigBlocks where
  object : Bool
  entries : Bool
  string : Nat → Bool

/-- The loop that starts the entries; a default text that cannot be copied ends it. -/
def startEntries (blocks : ConfigBlocks) (i : Nat) : List ConfigDesc → Result (List ConfigEntry)
  | [] => .ok []
  | d :: ds =>
      if d.type = .string ∧ blocks.string i = false then
        errSet .oom "config_create: default string alloc failed"
      else do
        let entries ← startEntries blocks (i + 1) ds
        return ⟨d, .default, d.initial⟩ :: entries

def hbiConfigCreate (schema : List ConfigDesc) (blocks : ConfigBlocks) : Result ConfigStore := do
  validateSchema [] schema
  if schema = [] then errSet .invalidArg "config_create: empty schema"
  else if blocks.object = false then errSet .oom "config_create: object alloc failed"
  else if blocks.entries = false then errSet .oom "config_create: entry alloc failed"
  else do
    let entries ← startEntries blocks 0 schema
    return ⟨entries⟩

def findEntry (cfg : ConfigStore) (key : List Char) : Option Nat :=
  cfg.entries.findIdx? fun e => e.desc.key = key

/-- The entry that a search found takes what an assignment makes of it; a failure leaves it. -/
def ConfigStore.assignAt (cfg : ConfigStore) (i : Nat)
    (assign : ConfigEntry → Result ConfigEntry) : ConfigStore × Result Unit :=
  match cfg.entries[i]? with
  | none => (cfg, .ok ())
  | some e =>
      match assign e with
      | .error f => (cfg, .error f)
      | .ok e' => (⟨cfg.entries.set i e'⟩, .ok ())

def applyText (cfg : ConfigStore) (key text : List Char) (src : ConfigSource)
    (allocated : Bool) : ConfigStore × Result Unit :=
  match findEntry cfg key with
  | none => (cfg, errSet .notFound s!"config: unknown key '{String.ofList key}'")
  | some i =>
      cfg.assignAt i fun e =>
        if src.rank < e.source.rank then .ok e else assignFromText e text src allocated

/-- What `trim` takes off. -/
def isTrimmed (c : Char) : Bool := c = ' ' ∨ c = '\t' ∨ c = '\r' ∨ c = '\n'

def trim (s : List Char) : List Char := (s.dropWhile isTrimmed).rdropWhile isTrimmed

/-- The lines of a text; nothing follows the last line feed. -/
def textLines (line : List Char) : List Char → List (List Char)
  | [] => if line = [] then [] else [line.reverse]
  | c :: cs => if c = '\n' then line.reverse :: textLines [] cs else textLines (c :: line) cs

/-- What a line of a file says. -/
inductive ConfigLine where
  | blank
  | malformed
  | assign (key value : List Char)
  deriving DecidableEq, Repr

def parseLine (line : List Char) : ConfigLine :=
  let line := trim line
  if line = [] ∨ line.head? = some '#' then .blank
  else
    match line.dropWhile (· ≠ '=') with
    | [] => .malformed
    | _ :: value => .assign (trim (line.takeWhile (· ≠ '='))) (trim value)

/-- The lines of a file up to its first `NUL`. -/
def fileLines (content : List Char) : List ConfigLine :=
  (textLines [] (content.takeWhile (· ≠ '\x00'))).map parseLine

/-- The loop over the lines, with the number of the line. -/
def loadLines (path : List Char) (allocated : Nat → Bool) (lineno : Nat) (cfg : ConfigStore) :
    List ConfigLine → ConfigStore × Result Unit
  | [] => (cfg, .ok ())
  | .blank :: lines => loadLines path allocated (lineno + 1) cfg lines
  | .malformed :: _ =>
      (cfg, errSet .corrupt s!"config '{String.ofList path}' line {lineno}: missing '='")
  | .assign key value :: lines =>
      match applyText cfg key value .file (allocated lineno) with
      | (cfg, .error f) => (cfg, .error f)
      | (cfg, .ok ()) => loadLines path allocated (lineno + 1) cfg lines

/-- How reading a file turns out: its opening, its size, the buffer, and the bytes read. -/
structure ConfigFile where
  opened : Result Unit
  size : Result Nat
  buffer : Bool
  content : Result (List Char)

def hbiConfigLoadFile (cfg : ConfigStore) (path : List Char) (file : ConfigFile)
    (allocated : Nat → Bool) : ConfigStore × Result Unit :=
  match file.opened with
  | .error f => (cfg, .error f)
  | .ok () =>
      match file.size with
      | .error f => (cfg, .error f)
      | .ok size =>
          if size > 16 * 1024 * 1024 then
            (cfg, errSet .corrupt
              s!"config file '{String.ofList path}' too large ({size} bytes)")
          else if file.buffer = false then
            (cfg, errSet .oom "config_load_file: buffer alloc failed")
          else
            match file.content with
            | .error f => (cfg, .error f)
            | .ok content => loadLines path allocated 1 cfg (fileLines content)

/-- What the environment holds for an entry: a text that is not empty. -/
def ConfigDesc.envText (d : ConfigDesc) (env : List Char → Option (List Char)) :
    Option (List Char) :=
  match d.env with
  | none => none
  | some name => (env name).filter fun raw => raw ≠ []

/-- One round of the loop over the entries. -/
def loadEnvEntry (env : List Char → Option (List Char)) (allocated : Bool) (e : ConfigEntry) :
    Result ConfigEntry :=
  match e.desc.envText env with
  | none => .ok e
  | some raw =>
      if ConfigSource.env.rank < e.source.rank then .ok e
      else assignFromText e raw .env allocated

/-- The loop of `hbi_config_load_env` from a place on: the entries, and how it ends. -/
def loadEnvLoop (env : List Char → Option (List Char)) (allocated : Nat → Bool) (i : Nat) :
    List ConfigEntry → List ConfigEntry × Result Unit
  | [] => ([], .ok ())
  | e :: es =>
      match loadEnvEntry env (allocated i) e with
      | .error f => (e :: es, .error f)
      | .ok e' =>
          let (es, result) := loadEnvLoop env allocated (i + 1) es
          (e' :: es, result)

def hbiConfigLoadEnv (cfg : ConfigStore) (env : List Char → Option (List Char))
    (allocated : Nat → Bool) : ConfigStore × Result Unit :=
  let (entries, result) := loadEnvLoop env allocated 0 cfg.entries
  (⟨entries⟩, result)

def hbiConfigApplyKv (cfg : ConfigStore) (key value : List Char) (allocated : Bool) :
    ConfigStore × Result Unit :=
  applyText cfg key value .set allocated

/-- `set_typed`, and the setter on the entry that it finds. -/
def setTyped (cfg : ConfigStore) (key : List Char) (type : ConfigType)
    (setter : ConfigEntry → Result ConfigEntry) : ConfigStore × Result Unit :=
  match findEntry cfg key with
  | none => (cfg, errSet .notFound s!"config set: unknown key '{String.ofList key}'")
  | some i =>
      cfg.assignAt i fun e =>
        if e.desc.type ≠ type then
          errSet .invalidArg (s!"config set '{String.ofList key}': type is " ++
            s!"{hbiConfigTypeStr e.desc.type}, gave {hbiConfigTypeStr type}")
        else setter e

def hbiConfigSetBool (cfg : ConfigStore) (key : List Char) (value : Bool) :
    ConfigStore × Result Unit :=
  setTyped cfg key .bool fun e => setBool e value .set

def hbiConfigSetInt (cfg : ConfigStore) (key : List Char) (value : Int) :
    ConfigStore × Result Unit :=
  setTyped cfg key .int fun e => setInt e value .set

def hbiConfigSetUint (cfg : ConfigStore) (key : List Char) (value : Nat) :
    ConfigStore × Result Unit :=
  setTyped cfg key .uint fun e => setUint e value .set

def hbiConfigSetString (cfg : ConfigStore) (key value : List Char) (allocated : Bool) :
    ConfigStore × Result Unit :=
  setTyped cfg key .string fun e => setString e value .set allocated

/-- A programmatic assignment. -/
inductive ConfigSet where
  | kv (key value : List Char)
  | bool (key : List Char) (value : Bool)
  | int (key : List Char) (value : Int)
  | uint (key : List Char) (value : Nat)
  | string (key value : List Char)
  deriving DecidableEq, Repr

inductive ConfigCall where
  | loadFile (path : List Char) (file : ConfigFile)
  | loadEnv (env : List Char → Option (List Char))
  | assign (a : ConfigSet)

def ConfigSet.run (cfg : ConfigStore) (allocated : Bool) :
    ConfigSet → ConfigStore × Result Unit
  | .kv key value => hbiConfigApplyKv cfg key value allocated
  | .bool key value => hbiConfigSetBool cfg key value
  | .int key value => hbiConfigSetInt cfg key value
  | .uint key value => hbiConfigSetUint cfg key value
  | .string key value => hbiConfigSetString cfg key value allocated

/-- A call, with the answers to its requests for copies of texts. -/
def ConfigStore.call (cfg : ConfigStore) : ConfigCall × (Nat → Bool) → ConfigStore × Result Unit
  | (.loadFile path file, allocated) => hbiConfigLoadFile cfg path file allocated
  | (.loadEnv env, allocated) => hbiConfigLoadEnv cfg env allocated
  | (.assign a, allocated) => a.run cfg (allocated 0)

/-- The store after a call, whatever it returned. -/
def ConfigStore.step (cfg : ConfigStore) (c : ConfigCall × (Nat → Bool)) : ConfigStore :=
  (cfg.call c).1

end Hummingbird
