import PlanningDomain.CommandLine
import PlanningDomain.Domain.Import
import PlanningDomain.Files.Tree
import PlanningDomain.Format.Text
import PlanningDomain.Format.Yaml
import PlanningDomain.Json.Reader
import PlanningDomain.Json.Writer
import PlanningDomain.Main
import PlanningDomain.Proofs.CommandLine.Arguments
import PlanningDomain.Proofs.Domain.Decoded
import PlanningDomain.Proofs.Domain.Typing
import PlanningDomain.Proofs.Format.Summary
import PlanningDomain.Proofs.Format.Yaml
import PlanningDomain.Proofs.Grammar.Regrouping
import PlanningDomain.Proofs.Reading.Acceptance
import PlanningDomain.Proofs.Reading.Continuation
import PlanningDomain.Proofs.Reading.InBounds
import PlanningDomain.Proofs.Reading.Layout
import PlanningDomain.Proofs.Reading.Order
import PlanningDomain.Proofs.Reading.RoundTrip
import PlanningDomain.Proofs.Reading.Skipping
import PlanningDomain.Proofs.Reading.TwoPhases
import PlanningDomain.Proofs.Settings.FileLines
import PlanningDomain.Proofs.Settings.RootNames
import PlanningDomain.Proofs.Syntax.Splitting
import PlanningDomain.Proofs.Token.Recased
import PlanningDomain.Proofs.Token.Spells
import PlanningDomain.Reading
import PlanningDomain.Session
import PlanningDomain.Settings.Given
import PlanningDomain.Settings.Loader
import PlanningDomain.Source.Cursor
import PlanningDomain.Text.Lowercase
import PlanningDomain.Text.Quoted
import PlanningDomain.Toml
import PlanningDomain.Toml.Quoted
import PlanningDomain.Toml.Reader
