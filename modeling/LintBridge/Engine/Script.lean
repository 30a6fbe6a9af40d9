/-!
The programs that Node runs inside an engine's module. Each reads a request from its standard input
and writes its answer to its standard output; the module is their first argument.
-/
namespace LintBridge.Script

def resolve : String := "console.log(require.resolve('tslint'))"

def text (lines : List String) : String := "\n".intercalate lines ++ "\n"

def opening : List String :=
  ["",
    "const engine = require(process.argv[1]);",
    "let input = '';",
    "process.stdin.setEncoding('utf8');",
    "process.stdin.on('data', chunk => \x7b input += chunk; \x7d);",
    "process.stdin.on('end', () => \x7b",
    "    const request = JSON.parse(input);"]

def lint : String := text (opening ++
  ["    const linter = new engine.Linter(\x7b",
    "        fix: false,",
    "        formatter: 'json',",
    "        rulesDirectory: request.rulesDirectory.length > 0 ? request.rulesDirectory : undefined,",
    "    \x7d);",
    "    const configuration = engine.Configuration.parseConfigFile(",
    "        request.configuration,",
    "        request.configDirectory || process.cwd(),",
    "        engine.Configuration.readConfigurationFile,",
    "    );",
    "    for (const rule of request.disabledRules) \x7b",
    "        configuration.rules.delete(rule);",
    "        configuration.jsRules.delete(rule);",
    "    \x7d",
    "    linter.lint(request.fileName, request.contents, configuration);",
    "    const result = linter.getResult();",
    "    process.stdout.write(JSON.stringify(\x7b",
    "        failures: result.failures.map(f => f.toJson()),",
    "        errorCount: result.errorCount,",
    "        warningCount: result.warningCount,",
    "    \x7d));",
    "\x7d);"])

/-- How the configuration program exits when the engine rejects a configuration. -/
def rejected : Nat := 3

def configuration : String := text (opening ++
  ["    let found;",
    "    try \x7b",
    "        found = engine.Configuration.findConfiguration(request.configFile, request.fileName);",
    "    \x7d catch (e) \x7b",
    "        process.stderr.write(String(e && e.message ? e.message : e));",
    "        process.exit(3);",
    "    \x7d",
    "    const toRaw = rules => \x7b",
    "        const raw = \x7b\x7d;",
    "        if (rules) \x7b",
    "            rules.forEach((options, name) => \x7b",
    "                raw[name] = \x7b severity: options.ruleSeverity, options: options.ruleArguments \x7d;",
    "            \x7d);",
    "        \x7d",
    "        return raw;",
    "    \x7d;",
    "    const config = found.results;",
    "    process.stdout.write(JSON.stringify(\x7b",
    "        path: found.path || null,",
    "        configuration: config ? \x7b",
    "            rules: toRaw(config.rules),",
    "            jsRules: toRaw(config.jsRules),",
    "            rulesDirectory: config.rulesDirectory,",
    "            linterOptions: config.linterOptions,",
    "        \x7d : null,",
    "    \x7d));",
    "\x7d);"])

end LintBridge.Script
