import TreeCompare.Environment
import TreeCompare.Report.Rendering

/-!
# Color support

Which style the standard output gets, by the environment alone: it is taken to
be no terminal unless the environment says so. Forced colors win over
everything, refused colors over every hint, and any one hint is enough.
-/
namespace TreeCompare.ColorSupport

/-- A number without a sign or with a plus sign that fits into a word. -/
def number? (text : String) : Option Nat :=
  let digits := match text.toList with
    | '+' :: digits => digits
    | digits => digits
  if digits.isEmpty || !digits.all Char.isDigit then none
  else
    let n := Nat.ofDigitChars 10 digits 0
    if n < UInt64.size then some n else none

/-- Whether colors are forced, and not by a zero. -/
def forced (env : Environment) : Bool :=
  match env.text? "FORCE_COLOR" with
  | some "false" => false
  | some text => number? text != some 0
  | none => (env.text? "CLICOLOR_FORCE").any (· ≠ "0")

def refused (env : Environment) : Bool :=
  (env.text? "NO_COLOR").any (· ≠ "0")
    || env.text? "TERM" == some "dumb"
    || !(env.text? "IGNORE_IS_TERMINAL").any (· ≠ "0")

def serviceVariables : List String :=
  ["CI_NAME", "GITHUB_ACTION", "GITLAB_CI", "NETLIFY", "TRAVIS", "CODEBUILD_SRC_DIR",
    "BUILDER_OUTPUT", "GITLAB_DEPLOYMENT", "NOW_GITHUB_DEPLOYMENT", "NOW_BUILDER",
    "BITBUCKET_DEPLOYMENT", "GERRIT_PROJECT", "SYSTEM_TEAMFOUNDATIONCOLLECTIONURI", "BITRISE_IO",
    "BUDDY_WORKSPACE_ID", "BUILDKITE", "CIRRUS_CI", "APPVEYOR", "CIRCLECI", "SEMAPHORE", "DRONE",
    "DSARI", "TDDIUM", "STRIDER", "TASKCLUSTER_ROOT_URL", "JENKINS_URL", "bamboo.buildKey",
    "GO_PIPELINE_NAME", "HUDSON_URL", "WERCKER", "MAGNUM", "NEVERCODE", "RENDER", "SAIL_CI",
    "SHIPPABLE"]

/-- Whether the program seems to run on a build service. -/
def onService (env : Environment) : Bool :=
  ["true", "1", "woodpecker"].any (fun v => env.text? "CI" == some v)
    || serviceVariables.any env.has
    || (env.text? "NODE").any (·.endsWith "//heroku/node/bin/node")

def hinted (env : Environment) : Bool :=
  env.has "COLORTERM" || env.has "TERM"
    || env.text? "TERM_PROGRAM" == some "iTerm.app"
    || env.text? "TERM_PROGRAM" == some "Apple_Terminal"
    || (env.text? "CLICOLOR").any (· ≠ "0")
    || onService env

def style (env : Environment) : Style :=
  if forced env || (!refused env && hinted env) then .colored else .plain

/-- Whether the colored style uses escapes where the output is no terminal. -/
def colors (env : Environment) : Bool :=
  (env.text? "CLICOLOR_FORCE").any (· ≠ "0")

end TreeCompare.ColorSupport
