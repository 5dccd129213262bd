/-
Lede.Metadata.Overrides — the kernel symbols that packages ask for
(`gen_kconfig_overrides` of `scripts/package-metadata.pl`).

The build configuration only says which packages are enabled. The metadata is
read line by line; a `Kernel-Config:` line belongs to the `Package:` line before
it.
-/
import Lede.Kconfig.Kconfig
import Lede.Metadata.Package
import Lede.Metadata.Version

namespace Lede.Metadata

open Lede.Lib

def configPrefix : Kconfig.Prefix := ⟨['C', 'O', 'N', 'F', 'I', 'G', '_'], rfl⟩

/-- `$config{"CONFIG_PACKAGE_$package"}`, for the lines of the build
configuration. -/
def enabled (cfg : List Text) (package : Text) : Bool :=
  cfg.any fun line =>
    match Kconfig.matchSet configPrefix (chomp line) with
    | some (idx, _) => idx = "PACKAGE_".toList ++ package
    | none => false

/-- An item of `Kernel-Config:`. -/
structure Request where
  config : Text
  val : Text
  override : Bool

/-- `/^(.+?)=(.+)$/` splits an item; a plain one asks for `m`. -/
def request (item : Text) : Request :=
  match item with
  | [] => ⟨[], ['m'], false⟩
  | c :: cs =>
    match cs.dropWhile (· != '=') with
    | _ :: v :: vs => ⟨c :: cs.takeWhile (· != '='), v :: vs, true⟩
    | _ => ⟨c :: cs, ['m'], false⟩

/-- The body of the loop over the items, for a package that is enabled or not. -/
def addRequest (on : Bool) (kconfig : Hash Text) (r : Request) : Hash Text :=
  if on ∧ r.config ≠ ['n'] then
    if kconfig.lookup r.config = some ['y'] then kconfig else kconfig.insert r.config r.val
  else if ¬ r.override ∧ ¬ truthy (kconfig.lookup r.config) then kconfig.insert r.config ['n']
  else kconfig

/-- The requests of a line. -/
def lineRequests (patchver line : Text) : List Request :=
  match after "Kernel-Config:" (chomp line) >>= shortest with
  | none => []
  | some items => (version_filter_list patchver (words items)).map request

/-- The package that a line names. -/
def linePackage (line : Text) : Option Text := after "Package:" (chomp line) >>= shortest

/-- One round of the loop over the metadata: `$package` and `%kconfig`. -/
def overrideLine (cfg : List Text) (patchver : Text) (s : Option Text × Hash Text) (line : Text) :
    Option Text × Hash Text :=
  let package := (linePackage line).or s.1
  (package,
    (lineRequests patchver line).foldl (addRequest (enabled cfg (package.getD []))) s.2)

/-- A printed line. -/
inductive Line where
  | notSet (kconfig : Text)
  | set (kconfig val : Text)

def Line.text : Line → Text
  | notSet k => "# ".toList ++ k ++ " is not set\n".toList
  | set k v => k ++ '=' :: v ++ ['\n']

def kconfigLine (k v : Text) : Line := if v = ['n'] then .notSet k else .set k v

def gen_kconfig_overrides (cfg : List Text) (patchver : Text) (metadata : List Text) : List Line :=
  let kconfig := (metadata.foldl (overrideLine cfg patchver) (none, ∅)).2
  (kconfig.entries.mergeSort fun p q => p.1 ≤ q.1).map fun p => kconfigLine p.1 p.2

end Lede.Metadata
