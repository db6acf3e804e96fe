/-
# StubRelease.Shell.Utility.Telling -- commands that tell about the machine

Commands that say what the machine is, who works on it and when, and a few that take one or two files. The
machine has one user and no clock.
-/
import StubRelease.Shell.Utility.Filters
import StubRelease.Shell.Utility.Trees

namespace StubRelease.Shell.Utility

open Act

/-- A command that takes at most some operands. -/
def withOperands (most : Nat) (usage : Nat) (run : Text → Arguments → Act Nat) (name : Text) (a : Arguments) :
    Act Nat :=
  match a.operands.drop most with
  | extra :: _ => misused name usage ("extra operand ".toList ++ quoteArgument extra)
  | [] => run name a

/-- A command that prints one line. -/
def telling (flags : List Flag) (usage : Nat) (line : Arguments → String) : Command :=
  .withFlags flags usage (withOperands 0 usage fun _ a => do
    printLine (line a).toList
    return 0)

def uname : Command :=
  telling [.plain "a" ["all"], .plain "s" ["kernel-name"], .plain "n" ["nodename"], .plain "r" ["kernel-release"],
    .plain "v" ["kernel-version"], .plain "m" ["machine"], .plain "p" ["processor"],
    .plain "i" ["hardware-platform"], .plain "o" ["operating-system"]] 1 fun a =>
    if a.has "m" then "x86_64" else if a.has "o" then "GNU/Linux" else "Linux"

def whoami : Command := telling [] 1 fun _ => "root"

def arch : Command := telling [] 1 fun _ => "x86_64"

def nproc : Command := telling [.plain "all" ["all"], .valued "ignore" ["ignore"]] 1 fun _ => "4"

/-- Says who a user is. -/
def id : Command := .withFlags (Flag.letters "agGnruzZ") 1 (withOperands 1 1 fun name a => do
  match a.operands.find? fun user => user ≠ "root".toList && user ≠ ['0'] with
  | some user => failAs name 1 (quote user ++ ": no such user".toList)
  | none =>
    let short := a.has "u" || a.has "g" || a.has "G"
    printLine (if short then if a.has "n" then "root".toList else ['0']
      else "uid=0(root) gid=0(root) groups=0(root)".toList)
    return 0)

/-- Says when the machine's time began. -/
def date : Command :=
  .withFlags [.plain "u" ["utc", "universal"], .plain "R" [], ⟨"I", ["iso-8601"], .attached⟩, .valued "d" ["date"],
    .valued "f" ["file"], .valued "r" ["reference"], .valued "s" ["set"]] 1 (withOperands 1 1 fun name a => do
    match a.last? "f", a.operands with
    | some path, _ =>
      match ← input path with
      | .ok _ => return 0
      | .error fault => refusedFile name 1 path fault
    | none, ('+' :: _) :: _ | none, [] =>
      printLine "Thu Jan  1 00:00:00 UTC 1970".toList
      return 0
    | none, other :: _ => failAs name 1 ("invalid date ".toList ++ quoteArgument other))

/-- Changes nothing about who files belong to, as they all belong to one user. -/
def chown (kind : String) : Command :=
  .withFlags [.plain "R" ["recursive"], .plain "h" ["no-dereference"], .plain "v" [], .plain "f" [], .plain "c" []]
    1 fun name a => do
    match a.operands with
    | [] => lacksOperand name 1
    | [only] => misused name 1 ("missing operand after ".toList ++ quoteArgument only)
    | who :: paths =>
      let names := Text.splitAt ':' who
      if !names.all fun n => n.isEmpty || n = "root".toList || (Text.toNat? n).isSome then
        failAs name 1 ("invalid ".toList ++ kind.toList ++ ": ".toList ++ quote who)
      else
        forEach paths fun path => do
          match (← store).nodeAt true path.bytes with
          | .ok _ => return 0
          | .error fault => refused name 1 ("cannot access ".toList ++ quote path) fault

/-- Removes one file. -/
def unlink : Command := .withFlags [] 1 (withOperands 1 1 fun name a => do
  match a.operands with
  | [] => lacksOperand name 1
  | path :: _ =>
    match ← files (Files.removeFile path.bytes) with
    | .ok () => return 0
    | .error fault => refused name 1 ("cannot unlink ".toList ++ quote path) fault)

/-! ## Base 64 -/

/-- The sixty-four digits. -/
def digits64 : Text := "ABCDEFGHIJKLMNOPQRSTUVWXYZabcdefghijklmnopqrstuvwxyz0123456789+/".toList

/-- Bytes in digits of base 64, three in four. -/
def encode64 : Bytes → Text
  | a :: b :: c :: rest =>
    let n := a.toNat * 65536 + b.toNat * 256 + c.toNat
    digit (n / 262144) :: digit (n / 4096) :: digit (n / 64) :: digit n :: encode64 rest
  | [a, b] =>
    let n := a.toNat * 65536 + b.toNat * 256
    [digit (n / 262144), digit (n / 4096), digit (n / 64), '=']
  | [a] =>
    let n := a.toNat * 65536
    [digit (n / 262144), digit (n / 4096), '=', '=']
  | [] => []
where
  digit (n : Nat) : Char := digits64.getD (n % 64) '='

/-- The bytes that digits of base 64 stand for, up to the first character that is none. -/
def decode64 : Text → Bytes
  | a :: b :: c :: d :: rest =>
    match digits64.findIdx? (· = a), digits64.findIdx? (· = b) with
    | some i, some j =>
      let first := (i * 4 + j / 16).toUInt8
      match digits64.findIdx? (· = c), digits64.findIdx? (· = d) with
      | some k, some l => first :: (j * 16 + k / 4).toUInt8 :: (k * 64 + l).toUInt8 :: decode64 rest
      | some k, none => [first, (j * 16 + k / 4).toUInt8]
      | none, _ => [first]
    | _, _ => []
  | _ => []

/-- Lines of a width. The number bounds the lines. -/
def wrapped (width : Nat) : Nat → Text → List Text
  | 0, _ => []
  | _, [] => []
  | n + 1, t => if width = 0 then [t] else t.take width :: wrapped width n (t.drop width)

def base64 : Command :=
  .withFlags [.plain "d" ["decode"], .valued "w" ["wrap"], .plain "i" ["ignore-garbage"]] 1
    (withOperands 1 1 fun name a => do
    let path := a.operands.headD ['-']
    match ← input path with
    | .error fault => refusedFile name 1 path fault
    | .ok t =>
      if a.has "d" then
        let _ ← write 1 (decode64 (t.filter (!Text.isSpace ·)))
        return 0
      else
        let width := ((a.last? "w").bind Text.toNat?).getD 76
        let code := encode64 t.bytes
        print (if width = 0 then code else Text.unlines (wrapped width (code.length + 1) code))
        return 0)

end StubRelease.Shell.Utility
